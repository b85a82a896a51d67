import Mathlib.Tactic
import SourceAtlas.FileSystem.Walk

/-! # The files that a walk yields

A walk of a directory yields a path exactly if names lead to it through directories that are listed
and are not links, none of the names is skipped, and what lies there counts as a file. It yields each
once: the files of a directory as they are listed, and after them what lies in its directories, as
these are listed. It comes to an error exactly if such names lead too deep.
-/

namespace SourceAtlas

namespace Path

variable {path : Path} {name : String} {names : List String}

def descend (path : Path) (names : List String) : Path :=
  { path with parts := path.parts ++ names }

theorem descend_nil (path : Path) : path.descend [] = path := by
  simp [descend]

theorem descend_cons : path.descend (name :: names) = (path.child name).descend names := by
  simp [descend, child]

theorem descend_injective : Function.Injective path.descend := by
  intro names other h
  exact List.append_cancel_left (congrArg parts h)

end Path

namespace Listing

variable {listing : Listing} {name a b : String} {entry : Entry} {directory p q : Path}

/-- As no two entries have the same name, each is found under its own. -/
theorem find?_eq_some_iff (h : listing.Pairwise (·.1 ≠ ·.1)) :
    listing.find? name = some entry ↔ (name, entry) ∈ listing := by
  refine ⟨mem_of_find?, fun hm => ?_⟩
  induction listing with
  | nil => cases hm
  | cons first rest ih =>
    obtain ⟨hf, hr⟩ := List.pairwise_cons.mp h
    rcases List.mem_cons.mp hm with rfl | hm
    · exact List.lookup_cons_self
    · have hne : (name == first.1) = false := beq_false_of_ne (hf _ hm).symm
      rw [find?, List.lookup_cons, hne]
      exact ih hr hm

def Before (listing : Listing) (a b : String) : Prop :=
  [a, b].Sublist (listing.map (·.1))

theorem Before.ne (h : listing.Before a b) (hd : listing.Pairwise (·.1 ≠ ·.1)) : a ≠ b := by
  have hn : (listing.map (·.1)).Pairwise (· ≠ ·) := List.pairwise_map.mpr hd
  exact (List.pairwise_cons.mp (hn.sublist h)).1 b List.mem_cons_self

theorem pairwise_before (listing : Listing) :
    listing.Pairwise fun first second => listing.Before first.1 second.1 := by
  refine List.pairwise_iff_forall_sublist.mpr fun {first second} h => ?_
  exact h.map Prod.fst

inductive Precedes : Listing → Path → Path → Path → Prop
  | file {listing : Listing} {directory : Path} {a b : String} : listing.Before a b →
      Precedes listing directory (directory.descend [a]) (directory.descend [b])
  | ahead {listing : Listing} {directory : Path} {a b : String} {names : List String} :
      names ≠ [] →
      Precedes listing directory (directory.descend [a]) (directory.descend (b :: names))
  | apart {listing : Listing} {directory : Path} {a b : String} {names other : List String} :
      listing.Before a b → names ≠ [] → other ≠ [] →
      Precedes listing directory (directory.descend (a :: names)) (directory.descend (b :: other))
  | within {listing inner : Listing} {directory p q : Path} {name : String} :
      (name, .directory inner) ∈ listing → Precedes inner (directory.child name) p q →
      Precedes listing directory p q

theorem Precedes.ne (h : Precedes listing directory p q)
    (hd : (Entry.directory listing).Distinct) : p ≠ q := by
  induction h with
  | file hb =>
    intro heq
    exact hb.ne hd.pairwise (List.cons.inj (Path.descend_injective heq)).1
  | ahead hn =>
    intro heq
    exact hn (List.cons.inj (Path.descend_injective heq)).2.symm
  | apart hb =>
    intro heq
    exact hb.ne hd.pairwise (List.cons.inj (Path.descend_injective heq)).1
  | within hm _ ih => exact ih (hd.mem hm)

end Listing

namespace FileSystem

variable {fs : FileSystem} {skips : String → Bool} {lead level : Nat} {seen path : Path}
  {listing : Listing} {entry : Entry} {name : String} {names : List String} {error : FileError}

/-! ## Items up to an error -/

section Items

variable {ε α : Type} {items more : List (Except ε α)} {found : List α} {e : ε}

theorem map_ok_of_upToError (h : upToError items = (found, none)) : items = found.map .ok := by
  induction items generalizing found with
  | nil =>
    obtain rfl : [] = found := (Prod.mk.inj h).1
    rfl
  | cons item rest ih =>
    cases item with
    | error e => simp [upToError] at h
    | ok item =>
      obtain ⟨rfl, hnone⟩ := Prod.mk.inj h
      rw [List.map_cons, ← ih (Prod.ext rfl hnone)]

theorem upToError_append (h : (upToError items).2 = none) :
    upToError (items ++ more) =
      ((upToError items).1 ++ (upToError more).1, (upToError more).2) := by
  induction items with
  | nil => rfl
  | cons item rest ih =>
    cases item with
    | error e => cases h
    | ok item => rw [List.cons_append, upToError, ih h, upToError, List.cons_append]

theorem upToError_append_of_error (h : (upToError items).2 = some e) :
    upToError (items ++ more) = upToError items := by
  induction items with
  | nil => cases h
  | cons item rest ih =>
    cases item with
    | error e => rfl
    | ok item => rw [List.cons_append, upToError, ih h, upToError]

theorem upToError_snd_eq_none_iff : (upToError items).2 = none ↔ ∀ e, .error e ∉ items := by
  induction items with
  | nil => simp [upToError]
  | cons item rest ih =>
    cases item with
    | error e => exact iff_of_false (Option.some_ne_none e) fun h => h e List.mem_cons_self
    | ok item => simp [upToError, ih]

/-- What is found before an error is what the items begin with. -/
theorem prefix_upToError (items : List (Except ε α)) :
    (upToError items).1.map .ok <+: items := by
  induction items with
  | nil => exact List.prefix_rfl
  | cons item rest ih =>
    cases item with
    | error e => exact List.nil_prefix
    | ok item => exact (List.prefix_cons_inj _).mpr ih

theorem upToError_of_forall_error (h : ∀ e', .error e' ∈ items → e' = e)
    (he : .error e ∈ items) : (upToError items).2 = some e := by
  induction items with
  | nil => cases he
  | cons item rest ih =>
    cases item with
    | error e' => rw [upToError, h e' List.mem_cons_self]
    | ok item =>
      rw [upToError]
      refine ih (fun e' he' => h e' (List.mem_cons_of_mem _ he')) ?_
      simpa using he

end Items

/-! ## What a walk yields -/

inductive Yields (fs : FileSystem) (skips : String → Bool) (lead : Nat) :
    Path → Entry → List String → Prop
  | file {seen : Path} {listing : Listing} {name : String} {entry : Entry} :
      fs.lists lead seen → (name, entry) ∈ listing → ¬skips name →
      fs.countsAsFile lead (seen.child name) entry →
      Yields fs skips lead seen (.directory listing) [name]
  | inner {seen : Path} {listing : Listing} {name : String} {entry : Entry} {names : List String} :
      fs.lists lead seen → (name, entry) ∈ listing → ¬skips name →
      Yields fs skips lead (seen.child name) entry names →
      Yields fs skips lead seen (.directory listing) (name :: names)

/-- A directory in which nothing can be walked, so many levels below the root, holds more than
files. -/
inductive Deep (fs : FileSystem) (skips : String → Bool) (lead : Nat) : Nat → Path → Entry → Prop
  | here {level : Nat} {seen : Path} {listing : Listing} : fs.lists lead seen →
      fs.isDeepest level → fs.hasMore skips lead seen listing →
      Deep fs skips lead level seen (.directory listing)
  | inner {level : Nat} {seen : Path} {listing : Listing} {name : String} {entry : Entry} :
      fs.lists lead seen → (name, entry) ∈ listing → ¬skips name →
      Deep fs skips lead (level + 1) (seen.child name) entry →
      Deep fs skips lead level seen (.directory listing)

theorem Yields.ne_nil (h : Yields fs skips lead seen entry names) : names ≠ [] := by
  cases h <;> exact List.cons_ne_nil _ _

theorem Yields.exists_listing (h : Yields fs skips lead seen entry names) :
    ∃ listing, entry = .directory listing := by
  cases h <;> exact ⟨_, rfl⟩

theorem Deep.exists_listing (h : Deep fs skips lead level seen entry) :
    ∃ listing, entry = .directory listing := by
  cases h <;> exact ⟨_, rfl⟩

theorem hasMore_iff : fs.hasMore skips lead seen listing ↔
    ∃ name entry, (name, entry) ∈ listing ∧ ¬skips name ∧
      ¬fs.countsAsFile lead (seen.child name) entry := by
  simp [hasMore]

theorem walkListing_eq_flatMap :
    walkListing fs skips lead level seen listing = listing.flatMap fun (name, entry) =>
      if skips name then [] else walkEntry fs skips lead (level + 1) (seen.child name) entry := by
  induction listing with
  | nil => rfl
  | cons first rest ih => rw [walkListing, ih, List.flatMap_cons]

theorem mem_filesIn : path ∈ fs.filesIn skips lead seen listing ↔
    ∃ name entry, (name, entry) ∈ listing ∧ ¬skips name ∧
      fs.countsAsFile lead (seen.child name) entry ∧ path = seen.child name := by
  simp only [filesIn, List.mem_filterMap, Prod.exists, Option.ite_none_right_eq_some,
    Bool.and_eq_true, Bool.not_eq_true', Bool.not_eq_true, Option.some.injEq, and_assoc,
    eq_comm (b := path)]

theorem mem_walkListing {item : Except FileError Path} :
    item ∈ walkListing fs skips lead level seen listing ↔
      ∃ name entry, (name, entry) ∈ listing ∧ ¬skips name ∧
        item ∈ walkEntry fs skips lead (level + 1) (seen.child name) entry := by
  simp [walkListing_eq_flatMap]

theorem walkEntry_of_not_lists (h : ¬fs.lists lead seen) :
    walkEntry fs skips lead level seen (.directory listing) = [] := by
  rw [walkEntry, if_neg h]

theorem walkEntry_of_deepest (hl : fs.lists lead seen) (hd : fs.isDeepest level)
    (hm : fs.hasMore skips lead seen listing) :
    walkEntry fs skips lead level seen (.directory listing) =
      (fs.filesIn skips lead seen listing).map .ok ++ [.error .tooDeep] := by
  rw [walkEntry, if_pos hl, if_pos (by simp [hd, hm])]

theorem walkEntry_of_lists (hl : fs.lists lead seen)
    (h : ¬(fs.isDeepest level ∧ fs.hasMore skips lead seen listing)) :
    walkEntry fs skips lead level seen (.directory listing) =
      (fs.filesIn skips lead seen listing).map .ok ++
        walkListing fs skips lead level seen listing := by
  rw [walkEntry, if_pos hl, if_neg (by simpa using h)]

/-- A walk comes to an error if it goes too deep, and to no other. -/
theorem error_mem_walkEntry (h : entry.Distinct) :
    .error error ∈ walkEntry fs skips lead level seen entry ↔
      error = .tooDeep ∧ Deep fs skips lead level seen entry := by
  induction h generalizing level seen with
  | file | link =>
    simp only [walkEntry, List.not_mem_nil, false_iff]
    rintro ⟨-, ⟨⟩⟩
  | @directory listing _ _ ih =>
    by_cases hl : fs.lists lead seen
    case neg =>
      rw [walkEntry_of_not_lists hl]
      refine iff_of_false List.not_mem_nil ?_
      rintro ⟨-, ⟨⟩⟩ <;> exact hl ‹_›
    by_cases hd : fs.isDeepest level ∧ fs.hasMore skips lead seen listing
    · rw [walkEntry_of_deepest hl hd.1 hd.2]
      have hdeep : Deep fs skips lead level seen (.directory listing) := .here hl hd.1 hd.2
      simp [hdeep]
    · rw [walkEntry_of_lists hl hd, List.mem_append, mem_walkListing]
      constructor
      · rintro (he | ⟨name, entry, hm, hs, he⟩)
        · simp at he
        · obtain ⟨rfl, hdeep⟩ := (ih _ hm).mp he
          exact ⟨rfl, .inner hl hm hs hdeep⟩
      · rintro ⟨rfl, hdeep⟩
        cases hdeep with
        | here _ hdeepest hmore => exact absurd ⟨hdeepest, hmore⟩ hd
        | inner _ hm hs hdeep => exact .inr ⟨_, _, hm, hs, (ih _ hm).mpr ⟨rfl, hdeep⟩⟩

theorem exists_yields_of_mem (h : entry.Distinct)
    (hp : .ok path ∈ walkEntry fs skips lead level seen entry) :
    ∃ names, Yields fs skips lead seen entry names ∧ path = seen.descend names := by
  induction h generalizing level seen with
  | file | link => cases hp
  | @directory listing _ _ ih =>
    by_cases hl : fs.lists lead seen
    case neg =>
      rw [walkEntry_of_not_lists hl] at hp
      cases hp
    have hfile : path ∈ fs.filesIn skips lead seen listing →
        ∃ names, Yields fs skips lead seen (.directory listing) names ∧
          path = seen.descend names := by
      intro hp
      obtain ⟨name, entry, hm, hs, hc, rfl⟩ := mem_filesIn.mp hp
      exact ⟨[name], .file hl hm hs hc, rfl⟩
    by_cases hd : fs.isDeepest level ∧ fs.hasMore skips lead seen listing
    · rw [walkEntry_of_deepest hl hd.1 hd.2] at hp
      exact hfile (by simpa using hp)
    · rw [walkEntry_of_lists hl hd, List.mem_append, mem_walkListing] at hp
      rcases hp with hp | ⟨name, entry, hm, hs, hp⟩
      · exact hfile (by simpa using hp)
      · obtain ⟨names, hy, rfl⟩ := ih _ hm hp
        exact ⟨name :: names, .inner hl hm hs hy, Path.descend_cons.symm⟩

/-- A walk that does not go too deep leaves nothing out. -/
theorem mem_walkEntry_of_yields (hy : Yields fs skips lead seen entry names)
    (hd : ¬Deep fs skips lead level seen entry) :
    .ok (seen.descend names) ∈ walkEntry fs skips lead level seen entry := by
  induction hy generalizing level with
  | file hl hm hs hc =>
    have hf := List.mem_map_of_mem (f := (Except.ok : Path → Except FileError Path))
      (mem_filesIn.mpr ⟨_, _, hm, hs, hc, rfl⟩)
    rw [walkEntry_of_lists hl fun h => hd (.here hl h.1 h.2)]
    exact List.mem_append_left _ hf
  | inner hl hm hs hy ih =>
    rw [walkEntry_of_lists hl fun h => hd (.here hl h.1 h.2), Path.descend_cons]
    refine List.mem_append_right _ (mem_walkListing.mpr ⟨_, _, hm, hs, ?_⟩)
    exact ih fun hdeep => hd (.inner hl hm hs hdeep)

/-! ## The order of a walk -/

/-- Of two items of a walk that are files, the first precedes the second. -/
def InOrder (listing : Listing) (directory : Path) (a b : Except FileError Path) : Prop :=
  ∀ p q, a = .ok p → b = .ok q → listing.Precedes directory p q

theorem inOrder_ok {p q : Path} (h : listing.Precedes seen p q) :
    InOrder listing seen (.ok p) (.ok q) := by
  rintro _ _ ⟨⟩ ⟨⟩
  exact h

theorem pairwise_filesIn (listing : Listing) :
    ((fs.filesIn skips lead seen listing).map .ok).Pairwise (InOrder listing seen) := by
  refine List.pairwise_map.mpr (List.Pairwise.filterMap _ (fun first second hb a ha b hb' => ?_)
    listing.pairwise_before)
  simp only [Option.ite_none_right_eq_some, Option.some.injEq] at ha hb'
  obtain ⟨-, rfl⟩ := ha
  obtain ⟨-, rfl⟩ := hb'
  exact inOrder_ok (.file hb)

/-- What is found below one name precedes what is found below a later one. -/
theorem inOrder_of_before {other : String} {entry' : Entry} (hb : listing.Before name other)
    (he : entry.Distinct) (he' : entry'.Distinct) {a b : Except FileError Path}
    (ha : a ∈ walkEntry fs skips lead level (seen.child name) entry)
    (hb' : b ∈ walkEntry fs skips lead level (seen.child other) entry') :
    InOrder listing seen a b := by
  rintro p q rfl rfl
  obtain ⟨names, hy, rfl⟩ := exists_yields_of_mem he ha
  obtain ⟨names', hy', rfl⟩ := exists_yields_of_mem he' hb'
  rw [← Path.descend_cons, ← Path.descend_cons]
  exact .apart hb hy.ne_nil hy'.ne_nil

/-- The files of a directory precede what is found in its directories. -/
theorem inOrder_of_mem_filesIn (hmem : ∀ item ∈ listing, item.2.Distinct)
    {a b : Except FileError Path} (ha : a ∈ (fs.filesIn skips lead seen listing).map .ok)
    (hb : b ∈ walkListing fs skips lead level seen listing) : InOrder listing seen a b := by
  rintro p q rfl rfl
  obtain ⟨name, _, _, _, _, rfl⟩ := mem_filesIn.mp (by simpa using ha)
  obtain ⟨other, entry, hm, _, hb⟩ := mem_walkListing.mp hb
  obtain ⟨names, hy, rfl⟩ := exists_yields_of_mem (hmem _ hm) hb
  rw [← Path.descend_cons]
  exact .ahead hy.ne_nil

theorem pairwise_walkListing (hmem : ∀ item ∈ listing, item.2.Distinct)
    (h : ∀ name inner, (name, .directory inner) ∈ listing →
      (walkEntry fs skips lead (level + 1) (seen.child name) (.directory inner)).Pairwise
        (InOrder inner (seen.child name))) :
    (walkListing fs skips lead level seen listing).Pairwise (InOrder listing seen) := by
  rw [walkListing_eq_flatMap]
  refine List.pairwise_flatMap.mpr ⟨?_, ?_⟩
  · rintro ⟨name, entry⟩ hm
    dsimp only
    split_ifs
    · exact .nil
    · cases entry with
      | file | link => exact .nil
      | directory inner =>
        exact (h _ _ hm).imp fun ho p q hp hq => .within hm (ho p q hp hq)
  · refine List.pairwise_iff_forall_sublist.mpr fun {first second} hsub a ha b hb => ?_
    have hbefore : listing.Before first.1 second.1 := hsub.map Prod.fst
    have hfirst := hmem _ (hsub.subset List.mem_cons_self)
    have hsecond := hmem _ (hsub.subset (List.mem_cons_of_mem _ List.mem_cons_self))
    dsimp only at ha hb
    split_ifs at ha hb
    · cases ha
    · cases ha
    · cases hb
    · exact inOrder_of_before hbefore hfirst hsecond ha hb

theorem pairwise_walkEntry (h : (Entry.directory listing).Distinct) :
    (walkEntry fs skips lead level seen (.directory listing)).Pairwise (InOrder listing seen) := by
  generalize he : Entry.directory listing = entry at h
  induction h generalizing listing level seen with
  | file | link => cases he
  | @directory listing _ hmem ih =>
    obtain rfl := Entry.directory.inj he
    by_cases hl : fs.lists lead seen
    case neg =>
      rw [walkEntry_of_not_lists hl]
      exact .nil
    by_cases hd : fs.isDeepest level ∧ fs.hasMore skips lead seen listing
    · rw [walkEntry_of_deepest hl hd.1 hd.2]
      refine List.pairwise_append.mpr ⟨pairwise_filesIn listing, List.pairwise_singleton _ _, ?_⟩
      rintro a - b hb p q - rfl
      simp at hb
    · rw [walkEntry_of_lists hl hd]
      exact List.pairwise_append.mpr ⟨pairwise_filesIn listing,
        pairwise_walkListing hmem fun _ _ hm => ih _ hm rfl,
        fun a ha b hb => inOrder_of_mem_filesIn hmem ha hb⟩

/-- The files that a walk finds up to an error are in order, and none is found twice. -/
theorem pairwise_upToError_walkEntry (h : (Entry.directory listing).Distinct) :
    (upToError (walkEntry fs skips lead level seen (.directory listing))).1.Pairwise
      (listing.Precedes seen) := by
  have hp := (pairwise_walkEntry h).sublist (prefix_upToError
    (walkEntry fs skips lead level seen (.directory listing))).sublist
  exact (List.pairwise_map.mp hp).imp fun ho => ho _ _ rfl rfl

theorem nodup_upToError_walkEntry (h : (Entry.directory listing).Distinct) :
    (upToError (walkEntry fs skips lead level seen (.directory listing))).1.Nodup :=
  (pairwise_upToError_walkEntry h).imp fun hp => hp.ne h

/-! ## The files below a directory -/

/-- Whether an entry that is seen at a path is no directory, a link that leads to one included. The
target of a link is out of reach when the path is too long. -/
inductive IsFile (fs : FileSystem) (lead : Nat) (seen : Path) : Entry → Prop
  | file (bytes : Bytes) : IsFile fs lead seen (.file bytes)
  | link (target : String) : isTooLong lead seen ∨ fs.isDirectory seen ≠ .ok true →
      IsFile fs lead seen (.link target)

theorem countsAsFile_iff : fs.countsAsFile lead seen entry ↔ IsFile fs lead seen entry := by
  cases entry with
  | file bytes => exact iff_of_true rfl (.file bytes)
  | directory listing => exact iff_of_false Bool.false_ne_true nofun
  | link target =>
    have hl : IsFile fs lead seen (.link target) ↔
        isTooLong lead seen ∨ fs.isDirectory seen ≠ .ok true :=
      ⟨fun h => by cases h; assumption, .link target⟩
    rw [hl, countsAsFile, Bool.or_eq_true]
    refine or_congr_right ?_
    split
    · next isDirectory hd => simp [hd]
    · next e he => simp [he]

theorem entryAt?_singleton : entryAt? listing [name] = listing.find? name := by
  unfold entryAt?
  cases listing.find? name <;> rfl

theorem entryAt?_cons_of_directory {inner : Listing}
    (h : listing.find? name = some (.directory inner)) (names : List String) :
    entryAt? listing (name :: names) = entryAt? inner names := by
  cases names <;> simp [entryAt?, h]

theorem entryAt?_cons {other : String} :
    entryAt? listing (name :: other :: names) = some entry ↔
      ∃ inner, listing.find? name = some (.directory inner) ∧
        entryAt? inner (other :: names) = some entry := by
  rw [entryAt?.eq_def]
  dsimp only
  cases listing.find? name with
  | none => simp
  | some found => cases found <;> simp

/-- Names lead from a directory that is seen at a path to another: through directories, links not
among them, that are listed. -/
structure LeadsTo (fs : FileSystem) (skips : String → Bool) (lead : Nat) (seen : Path)
    (listing : Listing) (names : List String) (inner : Listing) : Prop where
  entryAt : entryAt? listing names = some (.directory inner)
  not_skipped : ∀ name ∈ names, ¬skips name
  lists : ∀ i ≤ names.length, fs.lists lead (seen.descend (names.take i))

theorem leadsTo_nil {inner : Listing} : LeadsTo fs skips lead seen listing [] inner ↔
    inner = listing ∧ fs.lists lead seen := by
  constructor
  · rintro ⟨he, -, hl⟩
    have hl := hl 0 le_rfl
    rw [List.take_nil, Path.descend_nil] at hl
    exact ⟨(Entry.directory.inj (Option.some.inj he)).symm, hl⟩
  · rintro ⟨rfl, hl⟩
    refine ⟨rfl, List.forall_mem_nil _, fun i _ => ?_⟩
    rwa [List.take_nil, Path.descend_nil]

theorem leadsTo_cons {inner : Listing} :
    LeadsTo fs skips lead seen listing (name :: names) inner ↔ fs.lists lead seen ∧ ¬skips name ∧
      ∃ middle, listing.find? name = some (.directory middle) ∧
        LeadsTo fs skips lead (seen.child name) middle names inner := by
  constructor
  · rintro ⟨he, hs, hl⟩
    obtain ⟨hname, hnames⟩ := List.forall_mem_cons.mp hs
    obtain ⟨middle, hm⟩ : ∃ middle, listing.find? name = some (.directory middle) := by
      cases names with
      | nil => exact ⟨inner, by rwa [← entryAt?_singleton]⟩
      | cons other names =>
        obtain ⟨middle, hm, -⟩ := entryAt?_cons.mp he
        exact ⟨middle, hm⟩
    have hhere := hl 0 (Nat.zero_le _)
    rw [List.take_zero, Path.descend_nil] at hhere
    refine ⟨hhere, hname, middle, hm, by rwa [← entryAt?_cons_of_directory hm], hnames,
      fun i hi => ?_⟩
    rw [← Path.descend_cons, ← List.take_succ_cons]
    exact hl (i + 1) (Nat.succ_le_succ hi)
  · rintro ⟨hhere, hname, middle, hm, he, hs, hl⟩
    refine ⟨by rwa [entryAt?_cons_of_directory hm], List.forall_mem_cons.mpr ⟨hname, hs⟩, ?_⟩
    rintro (_ | i) hi
    · rwa [List.take_zero, Path.descend_nil]
    · rw [List.take_succ_cons, Path.descend_cons]
      exact hl i (Nat.le_of_succ_le_succ hi)

/-- Names lead from a listing that is seen at a path to a file below it. -/
def FileBelow (fs : FileSystem) (skips : String → Bool) (lead : Nat) (seen : Path)
    (listing : Listing) (names : List String) : Prop :=
  ∃ before name inner entry, names = before ++ [name] ∧
    fs.LeadsTo skips lead seen listing before inner ∧ ¬skips name ∧
    inner.find? name = some entry ∧ fs.IsFile lead (seen.descend names) entry

/-- Names lead from a listing that is seen at a path to a directory in which nothing can be walked,
though it holds more than files. -/
def TooDeep (fs : FileSystem) (skips : String → Bool) (lead : Nat) (seen : Path)
    (listing : Listing) : Prop :=
  ∃ names inner name entry, fs.LeadsTo skips lead seen listing names inner ∧
    fs.isDeepest names.length ∧ inner.find? name = some entry ∧ ¬skips name ∧
    ¬fs.IsFile lead ((seen.descend names).child name) entry

theorem yields_iff_fileBelow (h : (Entry.directory listing).Distinct) :
    Yields fs skips lead seen (.directory listing) names ↔
      FileBelow fs skips lead seen listing names := by
  induction names generalizing seen listing with
  | nil =>
    refine iff_of_false (fun hy => hy.ne_nil rfl) ?_
    rintro ⟨before, name, inner, entry, hn, -⟩
    simp at hn
  | cons name rest ih =>
    constructor
    · intro hy
      cases hy with
      | file hl hm hs hc =>
        exact ⟨[], name, listing, _, rfl, leadsTo_nil.mpr ⟨rfl, hl⟩, hs,
          (Listing.find?_eq_some_iff h.pairwise).mpr hm, countsAsFile_iff.mp hc⟩
      | inner hl hm hs hy =>
        obtain ⟨middle, rfl⟩ := hy.exists_listing
        obtain ⟨before, last, inner, entry, rfl, hleads, hlast, hf, hfile⟩ :=
          (ih (h.mem hm)).mp hy
        have hmiddle := (Listing.find?_eq_some_iff h.pairwise).mpr hm
        exact ⟨name :: before, last, inner, entry, rfl,
          leadsTo_cons.mpr ⟨hl, hs, middle, hmiddle, hleads⟩, hlast, hf, Path.descend_cons ▸ hfile⟩
    · rintro ⟨before, last, inner, entry, hn, hleads, hlast, hf, hfile⟩
      cases before with
      | nil =>
        obtain ⟨rfl, rfl⟩ := List.cons.inj hn
        obtain ⟨rfl, hl⟩ := leadsTo_nil.mp hleads
        exact .file hl (Listing.mem_of_find? hf) hlast (countsAsFile_iff.mpr hfile)
      | cons first before =>
        obtain ⟨rfl, rfl⟩ := List.cons.inj hn
        obtain ⟨hl, hs, middle, hm, hleads⟩ := leadsTo_cons.mp hleads
        have hm := Listing.mem_of_find? hm
        refine .inner hl hm hs ((ih (h.mem hm)).mpr ?_)
        exact ⟨before, last, inner, entry, rfl, hleads, hlast, hf, Path.descend_cons ▸ hfile⟩

theorem deep_of_leadsTo {inner : Listing} (h : LeadsTo fs skips lead seen listing names inner)
    (hd : fs.isDeepest (level + names.length))
    (hm : fs.hasMore skips lead (seen.descend names) inner) :
    Deep fs skips lead level seen (.directory listing) := by
  induction names generalizing level seen listing with
  | nil =>
    obtain ⟨rfl, hl⟩ := leadsTo_nil.mp h
    rw [Path.descend_nil] at hm
    exact .here hl hd hm
  | cons name names ih =>
    obtain ⟨hl, hs, middle, hf, h⟩ := leadsTo_cons.mp h
    rw [List.length_cons, Nat.add_comm _ 1, ← Nat.add_assoc] at hd
    rw [Path.descend_cons] at hm
    exact .inner hl (Listing.mem_of_find? hf) hs (ih h hd hm)

theorem Deep.exists_leadsTo (h : Deep fs skips lead level seen (.directory listing))
    (hd : (Entry.directory listing).Distinct) :
    ∃ names inner, LeadsTo fs skips lead seen listing names inner ∧
      fs.isDeepest (level + names.length) ∧
      fs.hasMore skips lead (seen.descend names) inner := by
  generalize he : Entry.directory listing = entry at h
  induction h generalizing listing with
  | here hl hdeepest hm =>
    obtain rfl := Entry.directory.inj he
    refine ⟨[], _, leadsTo_nil.mpr ⟨rfl, hl⟩, hdeepest, ?_⟩
    rwa [Path.descend_nil]
  | @inner level seen listing name entry hl hm hs hdeep ih =>
    obtain rfl := Entry.directory.inj he
    obtain ⟨middle, rfl⟩ := hdeep.exists_listing
    obtain ⟨names, inner, hleads, hdeepest, hmore⟩ := ih (hd.mem hm) rfl
    refine ⟨name :: names, inner, leadsTo_cons.mpr ⟨hl, hs, middle,
      (Listing.find?_eq_some_iff hd.pairwise).mpr hm, hleads⟩, ?_, ?_⟩
    · rwa [List.length_cons, Nat.add_comm _ 1, ← Nat.add_assoc]
    · rwa [Path.descend_cons]

/-! ## The root of a walk -/

theorem distinct_entryAt? (h : (Entry.directory listing).Distinct)
    (he : entryAt? listing names = some entry) : entry.Distinct := by
  induction names generalizing listing with
  | nil =>
    obtain rfl : Entry.directory listing = entry := Option.some.inj he
    exact h
  | cons name rest ih =>
    cases rest with
    | nil =>
      rw [entryAt?_singleton] at he
      exact h.mem (Listing.mem_of_find? he)
    | cons other names =>
      obtain ⟨inner, hf, he⟩ := entryAt?_cons.mp he
      exact ih (h.mem (Listing.mem_of_find? hf)) he

theorem tooDeep_iff (h : (Entry.directory listing).Distinct) :
    TooDeep fs skips lead seen listing ↔ Deep fs skips lead 0 seen (.directory listing) := by
  constructor
  · rintro ⟨names, inner, name, entry, hleads, hd, hf, hs, hc⟩
    refine deep_of_leadsTo hleads (by rwa [Nat.zero_add]) ?_
    exact hasMore_iff.mpr ⟨name, entry, Listing.mem_of_find? hf, hs, countsAsFile_iff.not.mpr hc⟩
  · intro hdeep
    obtain ⟨names, inner, hleads, hd, hm⟩ := hdeep.exists_leadsTo h
    obtain ⟨name, entry, hm, hs, hc⟩ := hasMore_iff.mp hm
    have hinner := distinct_entryAt? h hleads.entryAt
    exact ⟨names, inner, name, entry, hleads, by rwa [Nat.zero_add] at hd,
      (Listing.find?_eq_some_iff hinner.pairwise).mpr hm, hs, countsAsFile_iff.not.mp hc⟩

theorem entryAt?_of_reach {chain : List String} (h : fs.reach path = .ok (chain, entry)) :
    fs.spot .find path = .ok (.taken chain) ∧ entryAt? fs.entries chain = some entry := by
  unfold reach at h
  split at h
  · next found hs =>
    split at h
    · next he =>
      obtain ⟨rfl, rfl⟩ := Prod.mk.inj (Except.ok.inj h)
      exact ⟨hs, he⟩
    · cases h
  · cases h
  · cases h

theorem exists_reach_of_status (h : fs.status path = .ok (some entry)) :
    ∃ chain, fs.reach path = .ok (chain, entry) := by
  unfold status lookUp at h
  split at h
  · next found hf =>
    obtain rfl : found = entry := by simpa using h
    cases hr : fs.reach path with
    | error e => simp [hr, Except.map] at hf
    | ok reached =>
      obtain rfl : reached.2 = found := by simpa [hr, Except.map] using hf
      exact ⟨reached.1, rfl⟩
  · split_ifs at h
    cases h

theorem status_of_reach {chain : List String} (h : fs.reach path = .ok (chain, entry)) :
    fs.status path = .ok (some entry) := by
  simp only [status, lookUp, h, Except.map]

theorem distinct_of_status (h : fs.status path = .ok (some entry)) : entry.Distinct := by
  obtain ⟨chain, hr⟩ := exists_reach_of_status h
  exact distinct_entryAt? fs.distinct (entryAt?_of_reach hr).2

end FileSystem

end SourceAtlas
