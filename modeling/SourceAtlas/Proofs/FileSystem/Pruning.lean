import Mathlib.Tactic
import SourceAtlas.Proofs.FileSystem.Resolving
import SourceAtlas.Session.Basic

/-! # Pruned trees

A configuration does not see what has an ignored name, with all that is below it, nor the regular
files whose extension it does not read. Without them a plain tree is pruned. What a path leads to
and what a walk yields that is read can be told from the pruned tree alone, unless an ignored name
is in the path.
-/

namespace SourceAtlas

variable {config : Config}

def Config.readsName (config : Config) (name : String) : Bool :=
  config.extensions.contains (String.ofList (extensionOf name.toList))

/-- Whether an entry is a regular file that is not read. -/
def Entry.isUnread (config : Config) (name : String) : Entry → Bool
  | .file _ => !config.readsName name
  | _ => false

mutual

/-- An entry without what a configuration does not see below it. -/
def Entry.pruned (config : Config) : Entry → Entry
  | .file bytes => .file bytes
  | .link target => .link target
  | .directory listing => .directory (Listing.pruned config listing)
termination_by structural entry => entry

/-- The entries of a directory that a configuration sees, each pruned. -/
def Listing.pruned (config : Config) : List (String × Entry) → List (String × Entry)
  | [] => []
  | (name, entry) :: rest =>
    if config.ignores name || entry.isUnread config name then Listing.pruned config rest
    else (name, entry.pruned config) :: Listing.pruned config rest
termination_by structural listing => listing

end

/-- What a configuration sees of an entry of a name that is not ignored. -/
def Entry.visible (config : Config) (name : String) (entry : Entry) : Option Entry :=
  if entry.isUnread config name then none else some (entry.pruned config)

/-! ## Looking up -/

namespace Listing

variable {listing : Listing} {entry : Entry} {name other : String}

theorem find?_cons_self : Listing.find? ((name, entry) :: listing) name = some entry :=
  List.lookup_cons_self

theorem find?_cons_of_ne (h : name ≠ other) :
    Listing.find? ((other, entry) :: listing) name = listing.find? name := by
  rw [find?, List.lookup_cons, beq_false_of_ne h, find?]

theorem find?_pruned (h : listing.Pairwise (·.1 ≠ ·.1)) (hn : ¬config.ignores name) :
    Listing.find? (Listing.pruned config listing) name =
      (listing.find? name).bind (Entry.visible config name) := by
  induction listing with
  | nil => rfl
  | cons first rest ih =>
    obtain ⟨hfirst, hrest⟩ := List.pairwise_cons.mp h
    obtain ⟨other, entry⟩ := first
    rw [Listing.pruned]
    by_cases hname : name = other
    · subst hname
      have hnone : Listing.find? rest name = none := by
        refine Option.eq_none_iff_forall_ne_some.mpr fun found hf => ?_
        exact hfirst (name, found) (mem_of_find? hf) rfl
      rw [find?_cons_self, Option.bind_some, Entry.visible]
      by_cases hu : entry.isUnread config name
      · rw [if_pos (by rw [hu, Bool.or_true]), if_pos hu, ih hrest, hnone, Option.bind_none]
      · rw [if_neg (by simp [hn, hu]), if_neg hu, find?_cons_self]
    · rw [find?_cons_of_ne hname, ← ih hrest]
      split_ifs
      · rfl
      · exact find?_cons_of_ne hname

end Listing

theorem Entry.visible_eq_some_directory {name : String} {entry : Entry} {listing : Listing}
    (h : entry.visible config name = some (.directory listing)) :
    ∃ inner, entry = .directory inner ∧ Listing.pruned config inner = listing := by
  cases entry with
  | file bytes => simp [visible, pruned] at h
  | link target => simp [visible, pruned] at h
  | directory inner =>
    refine ⟨inner, rfl, ?_⟩
    simpa [visible, isUnread, pruned] using h

def Access.IsSeen (config : Config) (names : List String) : Access → Prop
  | .find name => (∀ name ∈ names, ¬config.ignores name) ∧ ¬config.ignores name
  | .list => ∀ name ∈ names, ¬config.ignores name
  | .read => (∀ name ∈ names, ¬config.ignores name) ∧ config.readsName (names.getLastD "")

namespace FileSystem

variable {fs other : FileSystem} {entry : Entry} {name : String} {names steps : List String}
  {path root seen : Path} {lead level : ℕ} {listing : Listing}
  {refuses refuses' : List String → Access → Option Refusal}

/-- Whether two plain trees differ, from wherever a path begins, only in what a configuration does
not see. What it sees of a directory is listed in the same order in both, and as deep, and the same
is refused. -/
structure Alike (config : Config) (fs other : FileSystem) : Prop where
  plain : fs.IsPlain
  plain_other : other.IsPlain
  visible : ∀ anchor, (fs.origin? anchor).bind (Entry.visible config "") =
    (other.origin? anchor).bind (Entry.visible config "")
  refuses : ∀ anchor names (access : Access), access.IsSeen config names →
    fs.refusesFrom anchor names access = other.refusesFrom anchor names access
  depth : fs.depth = other.depth

theorem Alike.symm (h : Alike config fs other) : Alike config other fs :=
  ⟨h.plain_other, h.plain, fun anchor => (h.visible anchor).symm,
    fun anchor names access hs => (h.refuses anchor names access hs).symm, h.depth.symm⟩

/-! ## Following steps -/

/-- What a configuration sees of an entry and the names that lead to it. -/
def visibleAt (config : Config) (found : List String × Entry) : Option (List String × Entry) :=
  (found.2.visible config (found.1.getLastD "")).map (found.1, ·)

/-- Steps whose names are not ignored lead from what is seen of an entry to what is seen of what
they lead to. -/
theorem present_resolve_visible (hd : entry.Distinct) (hs : ∀ step ∈ steps, ¬config.ignores step) :
    present (resolveFrom refuses names (entry.visible config (names.getLastD "")) steps) =
      (present (resolve refuses names entry steps)).map (·.bind (visibleAt config)) := by
  induction steps generalizing entry names with
  | nil =>
    rw [resolve, present, Except.map, Option.bind_some, visibleAt]
    cases entry.visible config (names.getLastD "") <;> rfl
  | cons step rest ih =>
    obtain ⟨hstep, hrest⟩ := List.forall_mem_cons.mp hs
    cases hd with
    | file bytes =>
      rw [Entry.visible]
      split_ifs <;> rfl
    | link target =>
      rw [Entry.visible]
      split_ifs <;> rfl
    | @directory listing hne hm =>
      have hdistinct : (Entry.directory listing).Distinct := .directory hne hm
      have hvisible : ∀ name, (Entry.directory listing).visible config name =
          some (.directory (Listing.pruned config listing)) := fun _ => rfl
      rw [hvisible, resolveFrom, resolve, resolve]
      cases hr : refuses names (.find step) with
      | some refusal => cases refusal <;> rfl
      | none =>
        dsimp only
        split_ifs
        · have hstay := @ih _ names hdistinct hrest
          rwa [hvisible] at hstay
        · rfl
        · rw [Listing.find?_pruned hne hstep]
          cases hf : Listing.find? listing step with
          | none => rfl
          | some found =>
            have hfound := @ih _ (names ++ [step]) (hm _ (Listing.mem_of_find? hf)) hrest
            rw [List.getLastD_concat] at hfound
            rw [Option.bind_some]
            dsimp only at hfound
            cases hv : found.visible config step <;> rwa [hv] at hfound

/-- What is refused matters only as far as it is seen. -/
theorem resolve_congr
    (h : ∀ names (access : Access), access.IsSeen config names →
      refuses names access = refuses' names access)
    (hn : ∀ name ∈ names, ¬config.ignores name) (hs : ∀ step ∈ steps, ¬config.ignores step) :
    resolve refuses names entry steps = resolve refuses' names entry steps := by
  induction steps generalizing entry names with
  | nil => rw [resolve, resolve]
  | cons step rest ih =>
    obtain ⟨hstep, hrest⟩ := List.forall_mem_cons.mp hs
    cases entry with
    | file | link => rfl
    | directory listing =>
      have hnames : ∀ name ∈ names ++ [step], ¬config.ignores name := by
        intro name hm
        rcases List.mem_append.mp hm with hm | hm
        · exact hn name hm
        · exact List.mem_singleton.mp hm ▸ hstep
      rw [resolve, resolve, h names (.find step) ⟨hn, hstep⟩]
      cases refuses' names (.find step) with
      | some refusal => rfl
      | none =>
        dsimp only
        split_ifs
        · exact ih hn hrest
        · rfl
        · cases Listing.find? listing step with
          | none => rfl
          | some entry => exact ih hnames hrest

theorem visible_name (ht : fs.trace path = .ok (names, entry)) :
    entry.visible config path.name = entry.visible config (names.getLastD "") := by
  unfold trace resolveFrom at ht
  split at ht
  · rcases getLastD_of_resolve ht with ⟨listing, rfl⟩ | hlast
    · rfl
    · rw [hlast, Path.name, List.getLastD_eq_getLast?]
      rfl
  · cases ht

theorem distinct_origin? {anchor : Anchor} (h : fs.origin? anchor = some entry) : entry.Distinct :=
  distinct_entryAt? fs.distinct h

theorem map_visibleAt_trace (hs : ∀ part ∈ path.parts, ¬config.ignores part) :
    (present (fs.trace path)).map (·.bind (visibleAt config)) =
      present (resolveFrom (fs.refusesFrom path.anchor) []
        ((fs.origin? path.anchor).bind (Entry.visible config "")) path.parts) := by
  unfold trace
  cases ho : fs.origin? path.anchor with
  | none => rfl
  | some entry => exact (@present_resolve_visible _ _ [] _ _ (distinct_origin? ho) hs).symm

section Alike

variable (h : Alike config fs other)
include h

/-- At a path without ignored names the same is seen of two trees that are alike. -/
theorem Alike.map_visibleAt_trace (hs : ∀ part ∈ path.parts, ¬config.ignores part) :
    (present (fs.trace path)).map (·.bind (visibleAt config)) =
      (present (other.trace path)).map (·.bind (visibleAt config)) := by
  rw [FileSystem.map_visibleAt_trace hs, FileSystem.map_visibleAt_trace hs, h.visible]
  unfold resolveFrom
  cases (other.origin? path.anchor).bind (Entry.visible config "") with
  | none => rfl
  | some entry =>
    exact congrArg present (resolve_congr (h.refuses path.anchor) (List.forall_mem_nil _) hs)

/-- A path without ignored names that leads to a directory in a tree leads to one in a tree that is
alike, and in both the same is seen. -/
theorem Alike.exists_trace (hs : ∀ part ∈ path.parts, ¬config.ignores part)
    (ht : fs.trace path = .ok (names, .directory listing)) :
    ∃ listing', other.trace path = .ok (names, .directory listing') ∧
      Listing.pruned config listing' = Listing.pruned config listing := by
  have hseen := h.map_visibleAt_trace hs
  rw [ht] at hseen
  have hvisible : visibleAt config (names, .directory listing) =
      some (names, .directory (Listing.pruned config listing)) := rfl
  cases hother : other.trace path with
  | error refusal =>
    rw [hother] at hseen
    cases refusal <;> simp [present, Except.map, hvisible] at hseen
  | ok found =>
    obtain ⟨names', entry⟩ := found
    rw [hother] at hseen
    simp only [present, Except.map, Option.bind_some, hvisible, Except.ok.injEq] at hseen
    obtain ⟨visible, hv, he⟩ := Option.map_eq_some_iff.mp hseen.symm
    obtain ⟨rfl, rfl⟩ := Prod.mk.inj he
    obtain ⟨inner, rfl, hpruned⟩ := Entry.visible_eq_some_directory hv
    exact ⟨inner, rfl, hpruned⟩

theorem Alike.exists_reach {chain : List String}
    (hs : ∀ part ∈ path.parts, ¬config.ignores part ∧ part ≠ "..")
    (hr : fs.reach path = .ok (chain, .directory listing)) :
    ∃ names listing', chain = fs.origin path.anchor ++ names ∧
      (∀ name ∈ names, ¬config.ignores name) ∧
      fs.trace path = .ok (names, .directory listing) ∧
      other.trace path = .ok (names, .directory listing') ∧
      other.reach path = .ok (other.origin path.anchor ++ names, .directory listing') ∧
      Listing.pruned config listing' = Listing.pruned config listing := by
  have hd : ".." ∉ path.parts := fun hm => (hs _ hm).2 rfl
  obtain ⟨hnul, hlong, names, ht, rfl⟩ := (reach_eq_ok_iff h.plain hd).mp hr
  obtain ⟨listing', ht', hpruned⟩ := h.exists_trace (fun part hp => (hs part hp).1) ht
  refine ⟨names, listing', rfl, fun name hn => ?_, ht, ht',
    (reach_eq_ok_iff h.plain_other hd).mpr ⟨hnul, hlong, names, ht', rfl⟩, hpruned⟩
  exact (hs name ((mem_of_resolveFrom ht name hn).resolve_left List.not_mem_nil)).1

theorem Alike.lists_of_lists (hs : ∀ part ∈ path.parts, ¬config.ignores part ∧ part ≠ "..")
    (hl : fs.lists lead path) : other.lists lead path := by
  unfold lists at hl ⊢
  obtain ⟨hshort, hl⟩ := Bool.and_eq_true_iff.mp hl
  split at hl
  · next chain listing hr =>
    obtain ⟨names, listing', rfl, hn, -, -, hr', -⟩ := h.exists_reach hs hr
    have hsame := h.refuses path.anchor names .list hn
    unfold refusesFrom at hsame
    rw [hr', hshort, Bool.true_and]
    dsimp only
    rw [← hsame]
    exact hl
  · cases hl

theorem Alike.lists_eq (hs : ∀ part ∈ path.parts, ¬config.ignores part ∧ part ≠ "..") :
    fs.lists lead path = other.lists lead path :=
  Bool.eq_iff_iff.mpr ⟨h.lists_of_lists hs, h.symm.lists_of_lists hs⟩

/-- At a path without ignored names the same status is seen in two trees that are alike. -/
theorem Alike.map_visible_status (hs : ∀ part ∈ path.parts, ¬config.ignores part ∧ part ≠ "..") :
    (fs.status path).map (·.bind (Entry.visible config path.name)) =
      (other.status path).map (·.bind (Entry.visible config path.name)) := by
  have hd : ".." ∉ path.parts := fun hm => (hs _ hm).2 rfl
  have hseen : ∀ fs : FileSystem,
      ((present (fs.trace path)).map (·.map (·.2))).map (·.bind (Entry.visible config path.name)) =
        ((present (fs.trace path)).map (·.bind (visibleAt config))).map (·.map (·.2)) := by
    intro fs
    cases ht : fs.trace path with
    | error refusal => cases refusal <;> rfl
    | ok found =>
      obtain ⟨names, entry⟩ := found
      rw [present, Except.map, Except.map, Except.map, Except.map, Option.map_some,
        Option.bind_some, Option.bind_some, visibleAt, ← visible_name ht, Option.map_map]
      exact congrArg Except.ok Option.map_id'.symm
  rw [status_eq h.plain hd, status_eq h.plain_other hd]
  split_ifs
  · rfl
  · rfl
  · have hmap : ∀ outcome : Except Refusal (Option Entry),
        (outcome.mapError (FileError.refused · path)).map
            (·.bind (Entry.visible config path.name)) =
          (outcome.map (·.bind (Entry.visible config path.name))).mapError
            (FileError.refused · path) := by
      rintro (refusal | found) <;> rfl
    rw [hmap, hmap, hseen, hseen, h.map_visibleAt_trace fun part hp => (hs part hp).1]

end Alike

/-! ## Walking -/

theorem reads_child : config.reads (seen.child name) = config.readsName name := by
  rw [Config.reads, Config.readsName, Path.extension, Path.name, Path.child, List.getLast?_concat,
    Option.getD_some]

theorem filter_map_ok (paths : List Path) :
    (paths.map .ok).filter config.keeps = (paths.filter config.reads).map .ok := by
  rw [List.filter_map]
  rfl

theorem filesIn_cons (fs : FileSystem) (skips : String → Bool) (listing : Listing) :
    fs.filesIn skips lead seen ((name, entry) :: listing) =
      (if !skips name && fs.countsAsFile lead (seen.child name) entry then [seen.child name]
        else []) ++ fs.filesIn skips lead seen listing := by
  rw [filesIn, filesIn, List.filterMap_cons]
  dsimp only
  split_ifs <;> rfl

theorem filter_filesIn_pruned (hp : ∀ item ∈ listing, item.2.Plain) :
    (fs.filesIn config.ignores lead seen listing).filter config.reads =
      (other.filesIn config.ignores lead seen (Listing.pruned config listing)).filter
        config.reads := by
  induction listing with
  | nil => rfl
  | cons first rest ih =>
    obtain ⟨hfirst, hrest⟩ := List.forall_mem_cons.mp hp
    obtain ⟨name, entry⟩ := first
    rw [Listing.pruned, filesIn_cons, List.filter_append, ih hrest]
    cases hfirst with
    | file bytes =>
      rw [Entry.isUnread, countsAsFile, Bool.and_true]
      by_cases hn : config.ignores name
      · simp [hn]
      by_cases hr : config.readsName name
      · simp [hn, hr, filesIn_cons, Entry.pruned, countsAsFile, reads_child]
      · simp [hn, hr, reads_child]
    | @directory listing _ _ =>
      rw [countsAsFile, Bool.and_false, if_neg Bool.false_ne_true]
      by_cases hn : config.ignores name
      · simp [hn]
      · simp [hn, filesIn_cons, Entry.isUnread, Entry.pruned, countsAsFile]

theorem hasMore_pruned (hp : ∀ item ∈ listing, item.2.Plain) :
    fs.hasMore config.ignores lead seen listing =
      other.hasMore config.ignores lead seen (Listing.pruned config listing) := by
  induction listing with
  | nil => rfl
  | cons first rest ih =>
    obtain ⟨hfirst, hrest⟩ := List.forall_mem_cons.mp hp
    obtain ⟨name, entry⟩ := first
    have hrest := ih hrest
    unfold hasMore at hrest ⊢
    rw [Listing.pruned, List.any_cons, hrest]
    by_cases hn : config.ignores name
    · simp [hn]
    cases hfirst with
    | file bytes =>
      by_cases hr : config.readsName name <;>
        simp [hn, hr, Entry.isUnread, Entry.pruned, countsAsFile]
    | directory => simp [hn, Entry.isUnread, Entry.pruned, countsAsFile]

/-- Whether two trees list the same directories at and below a path, but for ignored names. -/
def ListAlike (config : Config) (fs other : FileSystem) (lead : ℕ) (seen : Path) : Prop :=
  ∀ names : List String, (∀ name ∈ names, ¬config.ignores name ∧ name ≠ "..") →
    fs.lists lead (seen.descend names) = other.lists lead (seen.descend names)

theorem ListAlike.child (h : ListAlike config fs other lead seen)
    (hn : ¬config.ignores name ∧ name ≠ "..") :
    ListAlike config fs other lead (seen.child name) := by
  intro names hnames
  rw [← Path.descend_cons]
  exact h (name :: names) (List.forall_mem_cons.mpr ⟨hn, hnames⟩)

theorem filter_walkListing_pruned (hl : ListAlike config fs other lead seen)
    (hp : ∀ item ∈ listing, IsProper item.1 ∧ item.2.Plain)
    (ih : ∀ item ∈ listing, ∀ level seen, ListAlike config fs other lead seen →
      (fs.walkEntry config.ignores lead level seen item.2).filter config.keeps =
        (other.walkEntry config.ignores lead level seen (item.2.pruned config)).filter
          config.keeps) :
    (fs.walkListing config.ignores lead level seen listing).filter config.keeps =
      (other.walkListing config.ignores lead level seen (Listing.pruned config listing)).filter
        config.keeps := by
  induction listing with
  | nil => rfl
  | cons first rest ihr =>
    obtain ⟨⟨hproper, hfirst⟩, hrest⟩ := List.forall_mem_cons.mp hp
    obtain ⟨ihfirst, ihrest⟩ := List.forall_mem_cons.mp ih
    obtain ⟨name, entry⟩ := first
    rw [Listing.pruned, walkListing, List.filter_append, ihr hrest ihrest]
    by_cases hn : config.ignores name
    · simp [hn]
    · cases hfirst with
      | file bytes =>
        by_cases hr : config.readsName name <;>
          simp [hn, hr, Entry.isUnread, walkListing, walkEntry, Entry.pruned]
      | @directory listing _ _ =>
        have hinner := ihfirst (level + 1) (seen.child name) (hl.child ⟨hn, hproper.2⟩)
        dsimp only at hinner
        simp [hn, Entry.isUnread, walkListing, hinner]

/-- What is read below an entry of a plain tree is the same as below what is seen of it. -/
theorem filter_walkEntry_pruned (hd : fs.depth = other.depth) (hp : entry.Plain)
    (hl : ListAlike config fs other lead seen) :
    (fs.walkEntry config.ignores lead level seen entry).filter config.keeps =
      (other.walkEntry config.ignores lead level seen (entry.pruned config)).filter
        config.keeps := by
  induction hp generalizing level seen with
  | file bytes => rfl
  | @directory listing hn hm ih =>
    have hhere := hl [] (List.forall_mem_nil _)
    have hdeep : fs.isDeepest level = other.isDeepest level := by rw [isDeepest, isDeepest, hd]
    rw [Path.descend_nil] at hhere
    have hfiles : (fs.filesIn config.ignores lead seen listing).filter config.reads =
        (other.filesIn config.ignores lead seen (Listing.pruned config listing)).filter
          config.reads := filter_filesIn_pruned hm
    have hmore : fs.hasMore config.ignores lead seen listing =
        other.hasMore config.ignores lead seen (Listing.pruned config listing) := hasMore_pruned hm
    rw [Entry.pruned, walkEntry, walkEntry, hhere, hdeep, hmore]
    split_ifs
    · rw [List.filter_append, List.filter_append, filter_map_ok, filter_map_ok, hfiles]
    · rw [List.filter_append, List.filter_append, filter_map_ok, filter_map_ok, hfiles,
        filter_walkListing_pruned hl (fun item hi => ⟨hn item hi, hm item hi⟩)
          fun item hi _ _ => ih item hi]
    · rfl

theorem Alike.listAlike (h : Alike config fs other)
    (hs : ∀ part ∈ path.parts, ¬config.ignores part ∧ part ≠ "..") :
    ListAlike config fs other lead path := by
  intro names hnames
  refine h.lists_eq fun part hp => ?_
  rcases List.mem_append.mp hp with hp | hp
  · exact hs part hp
  · exact hnames part hp

/-- What is read at and below a root, by what is seen of it. -/
def itemsAt (config : Config) (fs : FileSystem) (root : Path) :
    Except FileError (Option Entry) → List (Except FileError Path)
  | .ok (some (.directory listing)) =>
    (fs.walkEntry config.ignores (leadOf root) 0 root (.directory listing)).filter config.keeps
  | .ok (some (.file _)) => [.ok root]
  | .ok _ => []
  | .error e => [.error e]

theorem filter_walk_eq_itemsAt (hn : ¬config.ignores root.name) (hp : fs.IsPlain)
    (hd : fs.depth = other.depth) (hl : ListAlike config fs other (leadOf root) root) :
    (fs.walk config.ignores root).filter config.keeps =
      itemsAt config other root ((fs.status root).map (·.bind (Entry.visible config root.name))) := by
  rw [walk, if_neg hn]
  cases hst : fs.status root with
  | error e => rfl
  | ok found =>
    cases found with
    | none => rfl
    | some entry =>
      have hplain := plain_of_status hp hst
      cases hplain with
      | file bytes =>
        have hreads : config.keeps (.ok root) = config.readsName root.name := rfl
        by_cases hr : config.readsName root.name <;>
          simp [Except.map, Entry.visible, Entry.isUnread, Entry.pruned, itemsAt, hreads, hr]
      | directory hn hm => exact filter_walkEntry_pruned hd (.directory hn hm) hl

/-- Walks of two trees that are alike come to the same files that are read and the same errors. -/
theorem Alike.filter_walk_eq (h : Alike config fs other)
    (hs : ∀ part ∈ root.parts, ¬config.ignores part ∧ part ≠ "..") :
    (fs.walk config.ignores root).filter config.keeps =
      (other.walk config.ignores root).filter config.keeps := by
  by_cases hn : config.ignores root.name
  · rw [walk, walk, if_pos hn, if_pos hn]
  · rw [filter_walk_eq_itemsAt hn h.plain h.depth (h.listAlike hs),
      filter_walk_eq_itemsAt hn h.plain_other rfl fun _ _ => rfl, h.map_visible_status hs]

end FileSystem

end SourceAtlas
