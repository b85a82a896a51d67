import Mathlib.Tactic
import SourceAtlas.FileSystem.Edit
import SourceAtlas.Proofs.FileSystem.Refusals
import SourceAtlas.Proofs.FileSystem.Walk

/-! # Plain trees

A tree is plain if no link is in it and all its names are such as a directory can have: none is
empty, and none is made of one or two dots. Changes that make no link keep a tree plain.
-/

namespace SourceAtlas

/-- Whether an entry can have a name: what is empty or dots are steps only. -/
def IsProper (name : String) : Prop :=
  ¬FileSystem.stays name ∧ name ≠ ".."

inductive Entry.Plain : Entry → Prop
  | file (bytes : Bytes) : Plain (.file bytes)
  | directory {listing : Listing} : (∀ item ∈ listing, IsProper item.1) →
      (∀ item ∈ listing, Plain item.2) → Plain (.directory listing)

/-- Whether a change makes no link and has no single dot for a part of its path, as no path that is
read from a text has one. -/
def Edit.IsPlain : Edit → Prop
  | .write path _ | .makeDirectory path | .remove path => "." ∉ path.parts
  | .link _ _ => False

instance : DecidablePred Edit.IsPlain
  | .write path _ => inferInstanceAs (Decidable ("." ∉ path.parts))
  | .makeDirectory path => inferInstanceAs (Decidable ("." ∉ path.parts))
  | .remove path => inferInstanceAs (Decidable ("." ∉ path.parts))
  | .link _ _ => inferInstanceAs (Decidable False)

namespace Entry.Plain

variable {listing : Listing} {item : String × Entry}

theorem isProper (h : (Entry.directory listing).Plain) (hi : item ∈ listing) :
    IsProper item.1 := by
  cases h with
  | directory hn _ => exact hn item hi

theorem mem (h : (Entry.directory listing).Plain) (hi : item ∈ listing) : item.2.Plain := by
  cases h with
  | directory _ hm => exact hm item hi

theorem empty : (Entry.directory []).Plain :=
  .directory nofun nofun

end Entry.Plain

/-! ## One change of a listing -/

namespace Listing

variable {listing : Listing} {name : String} {entry : Entry}

theorem plain_insert (h : (Entry.directory listing).Plain) (hn : IsProper name)
    (he : entry.Plain) : (Entry.directory (insert name entry listing)).Plain := by
  refine .directory (fun item hi => ?_) fun item hi => ?_ <;> rcases mem_insert hi with rfl | hi
  · exact hn
  · exact h.isProper hi
  · exact he
  · exact h.mem hi

theorem plain_erase (h : (Entry.directory listing).Plain) :
    (Entry.directory (erase name listing)).Plain :=
  .directory (fun _ hi => h.isProper (List.mem_filter.mp hi).1)
    fun _ hi => h.mem (List.mem_filter.mp hi).1

end Listing

namespace FileSystem

variable {fs : FileSystem} {listing : Listing} {entry : Entry} {name : String}
  {chain steps directory : List String} {path : Path} {bytes : Bytes}

theorem plain_update {change : Listing → Listing}
    (hc : ∀ listing, (Entry.directory listing).Plain → (Entry.directory (change listing)).Plain)
    (h : (Entry.directory listing).Plain) (chain : List String) :
    (Entry.directory (update change listing chain)).Plain := by
  induction chain generalizing listing with
  | nil => exact hc listing h
  | cons name rest ih =>
    unfold update
    split
    · next inner hf =>
      have hm := Listing.mem_of_find? hf
      exact Listing.plain_insert h (h.isProper hm) (ih (h.mem hm))
    · exact h

def IsPlain (fs : FileSystem) : Prop :=
  (Entry.directory fs.entries).Plain

theorem isPlain_empty : empty.IsPlain :=
  .directory (List.forall_mem_singleton.mpr ⟨by decide, by decide⟩)
    (List.forall_mem_singleton.mpr .empty)

theorem IsPlain.put (h : fs.IsPlain) (hn : IsProper name) (he : entry.Plain)
    (hd : entry.Distinct) : (fs.put directory name entry hd).IsPlain :=
  plain_update (fun _ hl => Listing.plain_insert hl hn he) h directory

theorem IsPlain.drop (h : fs.IsPlain) : (fs.drop directory name).IsPlain :=
  plain_update (fun _ hl => Listing.plain_erase hl) h directory

/-! ## Names that are found -/

theorem isProper_of_entryAt? (h : (Entry.directory listing).Plain)
    (he : entryAt? listing chain = some entry) : ∀ name ∈ chain, IsProper name := by
  induction chain generalizing listing with
  | nil => nofun
  | cons name rest ih =>
    cases rest with
    | nil =>
      rw [entryAt?_singleton] at he
      exact List.forall_mem_singleton.mpr (h.isProper (Listing.mem_of_find? he))
    | cons other names =>
      obtain ⟨inner, hf, he⟩ := entryAt?_cons.mp he
      have hm := Listing.mem_of_find? hf
      exact List.forall_mem_cons.mpr ⟨h.isProper hm, ih (h.mem hm) he⟩

/-- A name that is free is proper. -/
theorem isProper_of_follow {aim : Aim} {links : ℕ}
    (h : fs.follow aim links chain steps = .ok (.free directory name)) : IsProper name := by
  fun_induction follow fs aim links chain steps with
  | case1 => cases h
  | case2 => cases h
  | case3 _ _ _ _ _ _ _ _ ih => exact ih h
  | case4 _ _ _ _ _ _ _ ih => exact ih h
  | case5 => cases h
  | case6 => cases h
  | case7 _ _ _ _ _ _ _ hs hd =>
    obtain ⟨-, rfl⟩ := Spot.free.inj (Except.ok.inj h)
    exact ⟨hs, hd⟩
  | case8 => cases h
  | case9 => cases h
  | case10 _ _ _ _ _ _ _ _ _ _ _ _ _ ih => exact ih h
  | case11 _ _ _ _ _ _ _ _ _ _ _ _ _ _ ih => exact ih h
  | case12 => cases h
  | case13 => cases h

theorem isProper_of_spot {aim : Aim} (h : fs.spot aim path = .ok (.free directory name)) :
    IsProper name := by
  unfold spot at h
  split_ifs at h
  split at h
  · next hf =>
    obtain rfl := Except.ok.inj h
    exact isProper_of_follow hf
  · cases h

theorem name_of_place (h : fs.place path = .ok (directory, name)) : name = path.name := by
  unfold place at h
  split at h
  · cases h
  split at h
  · cases h
  · cases h
  · cases h
  · split at h
    · split at h
      · cases h
      · exact (Prod.mk.inj (Except.ok.inj h)).2.symm
    · cases h

theorem name_mem_parts (h : path.name ≠ "") : path.name ∈ path.parts := by
  cases hl : path.parts.getLast? with
  | none =>
    rw [Path.name, hl] at h
    exact absurd rfl h
  | some name =>
    rw [Path.name, hl]
    exact List.mem_of_getLast? hl

/-! ## One change of a tree -/

theorem IsPlain.attempt (h : fs.IsPlain) {changed : Except FileError FileSystem}
    (hc : ∀ fs', changed = .ok fs' → fs'.IsPlain) : (fs.attempt changed).1.IsPlain := by
  cases changed with
  | ok fs' => exact hc fs' rfl
  | error e => exact h

theorem IsPlain.makeDirectory (h : fs.IsPlain) (hd : "." ∉ path.parts) {fs' : FileSystem}
    (hm : fs.makeDirectory path = .ok fs') : fs'.IsPlain := by
  unfold FileSystem.makeDirectory at hm
  split at hm
  · cases hm
  · next directory name hp =>
    split_ifs at hm with hn
    obtain rfl := Except.ok.inj hm
    obtain ⟨hempty, hdots, -⟩ := not_or.mp hn |>.imp_right not_or.mp
    have hdot : name ≠ "." := by
      intro he
      have hmem := name_mem_parts (name_of_place hp ▸ hempty)
      rw [← name_of_place hp, he] at hmem
      exact hd hmem
    refine h.put ⟨?_, hdots⟩ .empty _
    simp [stays, hempty, hdot]

theorem IsPlain.write (h : fs.IsPlain) {fs' : FileSystem} (hw : fs.write path bytes = .ok fs') :
    fs'.IsPlain := by
  unfold FileSystem.write at hw
  split at hw
  · cases hw
  · next hs =>
    obtain rfl := Except.ok.inj hw
    exact h.put (isProper_of_spot hs) (.file bytes) _
  · split at hw
    · next he hl =>
      obtain rfl := Except.ok.inj hw
      exact h.put (isProper_of_entryAt? h he _ (List.mem_of_getLast? hl)) (.file bytes) _
    · cases hw

theorem IsPlain.ensureDirectory (h : fs.IsPlain) (hd : "." ∉ path.parts) :
    (fs.ensureDirectory path).1.IsPlain := by
  unfold FileSystem.ensureDirectory
  split
  · exact h
  · exact h
  · exact h.attempt fun _ => h.makeDirectory hd

theorem IsPlain.makeDirectories (h : fs.IsPlain) (anchor : Anchor) {reversed : List String}
    (hd : "." ∉ reversed) : (fs.makeDirectories anchor reversed).1.IsPlain := by
  induction reversed generalizing fs with
  | nil => exact h
  | cons name outer ih =>
    have houter : "." ∉ outer := fun hm => hd (List.mem_cons_of_mem _ hm)
    have hparts : "." ∉ (⟨anchor, (name :: outer).reverse⟩ : Path).parts :=
      fun hm => hd (List.mem_reverse.mp hm)
    have hfirst := h.ensureDirectory hparts
    unfold FileSystem.makeDirectories
    dsimp only
    split
    · next hmade =>
      rw [hmade] at hfirst
      have hinner := ih hfirst houter
      split
      · next hmade =>
        rw [hmade] at hinner
        exact hinner.ensureDirectory hparts
      · exact hinner
    · exact hfirst

theorem IsPlain.inParent (h : fs.IsPlain) (hd : "." ∉ path.parts)
    {change : FileSystem → Except FileError FileSystem}
    (hc : ∀ fs : FileSystem, fs.IsPlain → ∀ fs', change fs = .ok fs' → fs'.IsPlain) :
    (fs.inParent path change).1.IsPlain := by
  have hparent : "." ∉ path.parent.parts.reverse :=
    fun hm => hd (List.dropLast_subset _ (List.mem_reverse.mp hm))
  have hmade := h.makeDirectories path.parent.anchor hparent
  unfold FileSystem.inParent makeDirectoryAt
  split
  · next hm =>
    rw [hm] at hmade
    exact hmade.attempt (hc _ hmade)
  · exact hmade

/-! ## Any changes -/

/-- A change that makes no link keeps a tree plain, also one that fails. -/
theorem IsPlain.apply (h : fs.IsPlain) {edit : Edit} (he : edit.IsPlain) :
    (fs.apply edit).1.IsPlain := by
  cases edit with
  | write path bytes => exact h.inParent he fun _ hf _ => hf.write
  | makeDirectory path => exact h.makeDirectories path.anchor fun hm => he (List.mem_reverse.mp hm)
  | link path target => exact he.elim
  | remove path =>
    refine h.attempt fun fs' hr => ?_
    unfold FileSystem.remove at hr
    split at hr
    · cases hr
    · split at hr
      · obtain rfl := Except.ok.inj hr
        exact h.drop
      · cases hr

theorem IsPlain.applyAll (h : fs.IsPlain) {edits : List Edit} (he : ∀ edit ∈ edits, edit.IsPlain) :
    (fs.applyAll edits).1.IsPlain := by
  induction edits generalizing fs with
  | nil => exact h
  | cons edit rest ih =>
    obtain ⟨hfirst, hrest⟩ := List.forall_mem_cons.mp he
    have happly := h.apply hfirst
    unfold FileSystem.applyAll
    split
    · next ha =>
      rw [ha] at happly
      exact ih happly hrest
    · exact happly

end FileSystem

end SourceAtlas
