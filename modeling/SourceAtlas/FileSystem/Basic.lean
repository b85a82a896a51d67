import SourceAtlas.Path
import SourceAtlas.Text.Quoted
import SourceAtlas.Text.Utf8

/-! # File trees

A file system is the tree of directories, regular files and symbolic links below the root, as one
process finds it: with the directory that it works in, with what the system refuses it, and with how
deep it can walk. The entries of a directory have different names; a file system carries the proof
of it. They stand in the order in which they are listed, which is the directory's own.
-/

namespace SourceAtlas

inductive Entry where
  | file (bytes : Bytes)
  | link (target : String)
  | directory (entries : List (String × Entry))

abbrev Listing := List (String × Entry)

inductive Entry.Distinct : Entry → Prop
  | file (bytes : Bytes) : Distinct (.file bytes)
  | link (target : String) : Distinct (.link target)
  | directory {listing : Listing} : listing.Pairwise (·.1 ≠ ·.1) →
      (∀ item ∈ listing, Distinct item.2) → Distinct (.directory listing)

theorem Entry.Distinct.pairwise {listing : Listing} (h : (Entry.directory listing).Distinct) :
    listing.Pairwise (·.1 ≠ ·.1) := by
  cases h
  assumption

theorem Entry.Distinct.mem {listing : Listing} {item : String × Entry}
    (h : (Entry.directory listing).Distinct) (hi : item ∈ listing) : item.2.Distinct := by
  cases h with
  | directory _ h => exact h item hi

theorem Entry.distinct_empty : (directory []).Distinct :=
  .directory .nil nofun

namespace Listing

def find? (listing : Listing) (name : String) : Option Entry :=
  List.lookup name listing

/-- The listing with an entry of a name, in place of the one it had. A new one goes before the first
that has a greater name. -/
def insert (name : String) (entry : Entry) (listing : Listing) : Listing :=
  if listing.any (·.1 == name) then
    listing.map fun item => if item.1 == name then (name, entry) else item
  else listing.takeWhile (·.1 < name) ++ (name, entry) :: listing.dropWhile (·.1 < name)

def erase (name : String) (listing : Listing) : Listing :=
  listing.filter (·.1 != name)

variable {listing : Listing} {name : String} {entry : Entry} {item : String × Entry}

theorem mem_of_find? (h : listing.find? name = some entry) : (name, entry) ∈ listing := by
  obtain ⟨before, after, rfl, _⟩ := List.lookup_eq_some_iff.mp h
  simp

theorem mem_insert (h : item ∈ insert name entry listing) :
    item = (name, entry) ∨ item ∈ listing := by
  unfold insert at h
  split at h
  · obtain ⟨old, ho, rfl⟩ := List.mem_map.mp h
    split
    · exact Or.inl rfl
    · exact Or.inr ho
  · rcases List.mem_append.mp h with h | h
    · exact Or.inr ((List.takeWhile_sublist _).mem h)
    · rcases List.mem_cons.mp h with h | h
      · exact Or.inl h
      · exact Or.inr ((List.dropWhile_sublist _).mem h)

theorem pairwise_insert (h : listing.Pairwise (·.1 ≠ ·.1)) :
    (insert name entry listing).Pairwise (·.1 ≠ ·.1) := by
  unfold insert
  split
  · refine List.pairwise_map.mpr (h.imp fun {old other} hne => ?_)
    have hname : ∀ item : String × Entry,
        (if item.1 == name then (name, entry) else item).1 = item.1 := by
      intro item
      split
      · next he => exact (beq_iff_eq.mp he).symm
      · rfl
    rwa [hname, hname]
  · next hnew =>
    have hfresh : ∀ item ∈ listing, item.1 ≠ name := by
      intro item hi he
      exact hnew (List.any_eq_true.mpr ⟨item, hi, beq_iff_eq.mpr he⟩)
    have hsplit : (listing.takeWhile (·.1 < name) ++ listing.dropWhile (·.1 < name)).Pairwise
        (·.1 ≠ ·.1) := by rwa [List.takeWhile_append_dropWhile]
    obtain ⟨hbefore, hafter, happart⟩ := List.pairwise_append.mp hsplit
    refine List.pairwise_append.mpr ⟨hbefore, List.pairwise_cons.mpr ⟨fun item hi => ?_, hafter⟩, ?_⟩
    · exact (hfresh item ((List.dropWhile_sublist _).mem hi)).symm
    · intro item hi other ho
      rcases List.mem_cons.mp ho with rfl | ho
      · exact hfresh item ((List.takeWhile_sublist _).mem hi)
      · exact happart item hi other ho

theorem distinct_insert (h : (Entry.directory listing).Distinct) (he : entry.Distinct) :
    (Entry.directory (insert name entry listing)).Distinct := by
  refine .directory (pairwise_insert h.pairwise) fun item hi => ?_
  rcases mem_insert hi with rfl | hi
  · exact he
  · exact h.mem hi

theorem distinct_erase (h : (Entry.directory listing).Distinct) :
    (Entry.directory (erase name listing)).Distinct :=
  .directory (h.pairwise.filter _) fun _ hi => h.mem (List.mem_filter.mp hi).1

end Listing

inductive Refusal where
  | notPermitted
  | noEntry
  | inputOutput
  | accessDenied
  | alreadyExists
  | notDirectory
  | isDirectory
  | nameTooLong
  | tooManyLinks
deriving DecidableEq, Repr

namespace Refusal

def number : Refusal → Nat
  | notPermitted => 1
  | noEntry => 2
  | inputOutput => 5
  | accessDenied => 13
  | alreadyExists => 17
  | notDirectory => 20
  | isDirectory => 21
  | nameTooLong => 36
  | tooManyLinks => 40

def text : Refusal → String
  | notPermitted => "Operation not permitted"
  | noEntry => "No such file or directory"
  | inputOutput => "Input/output error"
  | accessDenied => "Permission denied"
  | alreadyExists => "File exists"
  | notDirectory => "Not a directory"
  | isDirectory => "Is a directory"
  | nameTooLong => "File name too long"
  | tooManyLinks => "Too many levels of symbolic links"

def message (refusal : Refusal) : String :=
  "[Errno " ++ toString refusal.number ++ "] " ++ refusal.text

end Refusal

inductive Access where
  | find (name : String)
  | list
  | read
deriving DecidableEq, Repr

/-- The tree below the root; the names that lead from the root to the working directory; what the
system refuses at the end of such a chain of names; and how many directories inside of one another
can be walked through, if there is a bound. -/
structure FileSystem where
  entries : Listing
  distinct : (Entry.directory entries).Distinct
  here : List String
  refuses : List String → Access → Option Refusal
  depth : Option Nat

inductive FileError where
  | embeddedNul
  | tooDeep
  | refused (refusal : Refusal) (path : Path)
  | linkRefused (refusal : Refusal) (target : String) (path : Path)
deriving DecidableEq, Repr

namespace FileError

def refusal? : FileError → Option Refusal
  | embeddedNul | tooDeep => none
  | refused refusal _ => some refusal
  | linkRefused refusal _ _ => some refusal

def message : FileError → String
  | embeddedNul => "embedded null byte"
  | tooDeep => "maximum recursion depth exceeded"
  | refused refusal path => refusal.message ++ ": " ++ Text.quoted path.text
  | linkRefused refusal target path =>
    refusal.message ++ ": " ++ Text.quoted target ++ " -> " ++ Text.quoted path.text

end FileError

namespace FileSystem

/-- An empty working directory. What is around it cannot be listed, and the walk has as many levels
as a call stack of usual size. -/
def empty : FileSystem where
  entries := [("work", .directory [])]
  distinct := .directory (List.pairwise_singleton _ _)
    (List.forall_mem_singleton.mpr Entry.distinct_empty)
  here := ["work"]
  refuses chain access := if chain = [] ∧ access = .list then some .accessDenied else none
  depth := some 990

def entryAt? : Listing → List String → Option Entry
  | listing, [] => some (.directory listing)
  | listing, name :: rest =>
    match listing.find? name, rest with
    | some entry, [] => some entry
    | some (.directory inner), rest => entryAt? inner rest
    | _, _ => none

def update (change : Listing → Listing) : Listing → List String → Listing
  | listing, [] => change listing
  | listing, name :: rest =>
    match listing.find? name with
    | some (.directory inner) => listing.insert name (.directory (update change inner rest))
    | _ => listing

/-- A change that keeps names distinct may be made at any depth. -/
theorem distinct_update {change : Listing → Listing}
    (hc : ∀ listing, (Entry.directory listing).Distinct → (Entry.directory (change listing)).Distinct)
    {listing : Listing} (h : (Entry.directory listing).Distinct) (chain : List String) :
    (Entry.directory (update change listing chain)).Distinct := by
  induction chain generalizing listing with
  | nil => exact hc listing h
  | cons name rest ih =>
    unfold update
    split
    · next inner hf => exact Listing.distinct_insert h (ih (h.mem (Listing.mem_of_find? hf)))
    · exact h

end FileSystem

end SourceAtlas
