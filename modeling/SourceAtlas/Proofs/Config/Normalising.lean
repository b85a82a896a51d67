import Mathlib
import SourceAtlas.Proofs.Config.Fields
import SourceAtlas.Proofs.Text.Trimming

/-! # Normal extensions

An extension is normalised by one pass, which takes away the blanks around it and then one dot. What
is left is normal unless that dot was followed by another or by a blank, and just then a
configuration that is built again from its own fields is another one.
-/

namespace SourceAtlas.Config

variable {extension given : String} {names : List String} {rest : List Char} {config : Config}
  {fields : List (String × Value)}

structure IsNormal (extension : String) : Prop where
  trimmed : Text.IsTrimmed Text.isBlank extension.toList
  undotted : extension.toList.head? ≠ some '.'

instance : DecidablePred IsNormal := fun extension =>
  decidable_of_iff (Text.IsTrimmed Text.isBlank extension.toList ∧
    extension.toList.head? ≠ some '.') ⟨fun ⟨ht, hu⟩ => ⟨ht, hu⟩, fun ⟨ht, hu⟩ => ⟨ht, hu⟩⟩

/-- Whether an extension has another dot, or a blank, behind the dot in front of it. -/
def IsTwiceLed (extension : String) : Prop :=
  ∃ c rest, (Text.strip extension).toList = '.' :: c :: rest ∧ (c = '.' ∨ Text.isBlank c)

/-! ## One pass -/

theorem normalise_of_dot (h : (Text.strip extension).toList = '.' :: rest) :
    normalise extension = String.ofList rest := by
  simp only [normalise, h]

theorem normalise_of_no_dot (h : (Text.strip extension).toList.head? ≠ some '.') :
    normalise extension = Text.strip extension := by
  unfold normalise
  split
  · next hdot => exact absurd (congrArg List.head? hdot) h
  · exact String.ofList_toList

/-- The pass makes an extension that is not normal shorter. -/
theorem length_normalise_lt (h : ¬IsNormal extension) :
    (normalise extension).toList.length < extension.toList.length := by
  have hstrip : (Text.strip extension).toList = Text.trim Text.isBlank extension.toList :=
    String.toList_ofList
  have hsub := Text.trim_sublist Text.isBlank extension.toList
  by_cases hd : (Text.strip extension).toList.head? = some '.'
  · obtain ⟨rest, hr⟩ := List.head?_eq_some_iff.mp hd
    have hle := hsub.length_le
    rw [← hstrip, hr, List.length_cons] at hle
    rw [normalise_of_dot hr, String.toList_ofList]
    exact hle
  · rw [normalise_of_no_dot hd, hstrip]
    refine lt_of_le_of_ne hsub.length_le fun hlength => h ?_
    have htrim := hsub.eq_of_length hlength
    exact ⟨Text.trim_eq_self_iff.mp htrim, by rwa [hstrip, htrim] at hd⟩

theorem normalise_eq_self_iff : normalise extension = extension ↔ IsNormal extension := by
  constructor
  · intro h
    by_contra hn
    have hlt := length_normalise_lt hn
    rw [h] at hlt
    exact lt_irrefl _ hlt
  · rintro ⟨ht, hu⟩
    have hs := Text.strip_eq_self_iff.mpr ht
    rw [normalise_of_no_dot (by rwa [hs]), hs]

/-- The pass leaves something to take away just where a dot or a blank follows the dot that it takes
away. -/
theorem isNormal_normalise_iff : IsNormal (normalise given) ↔ ¬IsTwiceLed given := by
  have htrimmed := Text.isTrimmed_strip given
  by_cases hd : (Text.strip given).toList.head? = some '.'
  · obtain ⟨rest, hr⟩ := List.head?_eq_some_iff.mp hd
    rw [normalise_of_dot hr]
    constructor
    · rintro ⟨ht, hu⟩ ⟨c, more, hm, hc⟩
      obtain rfl := (List.cons.inj (hr.symm.trans hm)).2
      rw [String.toList_ofList] at ht hu
      rcases hc with rfl | hc
      · exact hu rfl
      · exact ht.head c rfl hc
    · intro hn
      cases rest with
      | nil => exact ⟨⟨nofun, nofun⟩, nofun⟩
      | cons c more =>
        have hlast := htrimmed.last
        rw [hr, List.getLast?_cons_cons] at hlast
        refine ⟨⟨?_, ?_⟩, ?_⟩ <;> rw [String.toList_ofList]
        · rintro _ ⟨⟩ hb
          exact hn ⟨c, more, hr, Or.inr hb⟩
        · exact hlast
        · rintro ⟨⟩
          exact hn ⟨'.', more, hr, Or.inl rfl⟩
  · rw [normalise_of_no_dot hd]
    refine iff_of_true ⟨htrimmed, hd⟩ ?_
    rintro ⟨c, more, hm, -⟩
    exact hd (congrArg List.head? hm)

/-! ## All extensions -/

/-- A set of extensions stays what it is only if all of them are normal: the longest of the others
would be left by none. -/
theorem nameSet_map_normalise_eq_iff (h : names.Pairwise (· < ·)) :
    nameSet (names.map normalise) = names ↔ ∀ extension ∈ names, IsNormal extension := by
  constructor
  · intro hstable
    by_contra hn
    have hne : (names.toFinset.filter (¬IsNormal ·)).Nonempty := by
      push Not at hn
      obtain ⟨extension, he, hbad⟩ := hn
      exact ⟨extension, by simpa using ⟨he, hbad⟩⟩
    obtain ⟨longest, hl, hmax⟩ := Finset.exists_max_image _ (·.toList.length) hne
    obtain ⟨hmem, hbad⟩ := Finset.mem_filter.mp hl
    rw [List.mem_toFinset, ← hstable, mem_nameSet] at hmem
    obtain ⟨other, ho, rfl⟩ := List.mem_map.mp hmem
    by_cases hnormal : IsNormal other
    · rw [normalise_eq_self_iff.mpr hnormal] at hbad
      exact hbad hnormal
    · have hle := hmax other (Finset.mem_filter.mpr ⟨List.mem_toFinset.mpr ho, hnormal⟩)
      exact absurd (length_normalise_lt hnormal) (Nat.not_lt.mpr hle)
  · intro hall
    rw [List.map_congr_left fun extension he => normalise_eq_self_iff.mpr (hall extension he),
      List.map_id', nameSet_of_pairwise h]

def givenExtensions (fields : List (String × Value)) : List String :=
  match Value.field? fields "linted_extensions" with
  | some (.text extension) => [extension]
  | some (.list items) => items.map Value.display
  | _ => ({} : Config).extensions

theorem extensions_of_ofFields (h : ofFields fields = .ok config) :
    config.extensions = nameSet ((givenExtensions fields).map normalise) := by
  obtain ⟨-, hextensions, -⟩ := ofFields_eq_ok_iff.mp h
  rcases Value.optional_eq_ok_iff.mp hextensions with ⟨hn, hd⟩ | ⟨value, hv, hr⟩
  · have hdefault : nameSet (({} : Config).extensions.map normalise) = ({} : Config).extensions :=
      (nameSet_map_normalise_eq_iff isBuilt_default.extensions).mpr (by decide)
    rw [givenExtensions, hn, hdefault, hd]
  · rw [givenExtensions, hv]
    cases value with
    | text extension => exact (Except.ok.inj hr).symm
    | list items =>
      refine (Except.ok.inj hr).symm.trans ?_
      rw [List.map_map]
      rfl
    | _ => cases hr

/-- A built configuration has the extensions that it was given, each normalised by one pass. Its own
fields always build a configuration again, with the same ignored names and number of files at once,
and with the extensions normalised by another pass. It is the same one, and all extensions of the
first are normal, exactly if none that was given has another dot or a blank behind the dot in front
of it. -/
theorem rebuilt_of_fields (h : ofFields fields = .ok config) :
    (∀ extension, extension ∈ config.extensions ↔
      ∃ given ∈ givenExtensions fields, normalise given = extension) ∧
    ((∀ extension ∈ config.extensions, IsNormal extension) ↔
      ∀ given ∈ givenExtensions fields, ¬IsTwiceLed given) ∧
    ∃ rebuilt, ofFields config.toFields = .ok rebuilt ∧
      rebuilt.ignored = config.ignored ∧ rebuilt.maxWorkers = config.maxWorkers ∧
      (∀ extension, extension ∈ rebuilt.extensions ↔
        ∃ stored ∈ config.extensions, normalise stored = extension) ∧
      (rebuilt = config ↔ ∀ given ∈ givenExtensions fields, ¬IsTwiceLed given) := by
  have hbuilt := isBuilt_of_ofFields h
  have hextensions : ∀ extension, extension ∈ config.extensions ↔
      ∃ given ∈ givenExtensions fields, normalise given = extension := by
    intro extension
    rw [extensions_of_ofFields h, mem_nameSet, List.mem_map]
  have hnormal : (∀ extension ∈ config.extensions, IsNormal extension) ↔
      ∀ given ∈ givenExtensions fields, ¬IsTwiceLed given := by
    simp only [hextensions, ← isNormal_normalise_iff, forall_exists_index, and_imp,
      forall_apply_eq_imp_iff₂]
  refine ⟨hextensions, hnormal, _, hbuilt.ofFields_toFields, rfl, rfl, fun extension => ?_, ?_⟩
  · rw [mem_nameSet, List.mem_map]
  · rw [← hnormal, ← nameSet_map_normalise_eq_iff hbuilt.extensions]
    exact ⟨congrArg extensions, fun hs => by rw [hs]⟩

theorem rebuilt_of_typed :
    let fields : List (String × Value) :=
      [("linted_extensions", .list [.text ".ts", .text " tsx "]), ("max_workers", .int 2)]
    let config : Config := { extensions := ["ts", "tsx"], maxWorkers := some 2 }
    ofFields fields = .ok config ∧ (∀ extension ∈ config.extensions, IsNormal extension) ∧
      ofFields config.toFields = .ok config := by
  intro fields config
  have h : ofFields fields = .ok config := by cbv
  have hgiven : ∀ given ∈ givenExtensions fields, ¬IsTwiceLed given := by
    have hnormal : ∀ given ∈ givenExtensions fields, IsNormal (normalise given) := by decide
    exact fun given hg => isNormal_normalise_iff.mp (hnormal given hg)
  obtain ⟨-, hall, rebuilt, hr, -, -, -, hsame⟩ := rebuilt_of_fields h
  obtain rfl := hsame.mpr hgiven
  exact ⟨h, hall.mpr hgiven, hr⟩

/-- One pass takes away one of two dots, and leaves a blank behind a dot. -/
theorem rebuilt_of_dots :
    let fields : List (String × Value) :=
      [("linted_extensions", .list [.text "..js", .text ". js"])]
    let config : Config := { extensions := [" js", ".js"] }
    ofFields fields = .ok config ∧ ¬IsNormal ".js" ∧ ¬IsNormal " js" ∧
      ofFields config.toFields = .ok { extensions := ["js"] } ∧
      config ≠ { extensions := ["js"] } := by
  intro fields config
  exact ⟨by cbv, by decide, by decide, by cbv, by decide⟩

end SourceAtlas.Config
