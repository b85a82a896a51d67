import Mathlib.Tactic
import SourceAtlas.OrderedMap

/-! # Merging ordered maps

A key that a map has keeps its place and takes the merged value; the other keys come after it, in
their order. When the merged map agrees with it, a map is a prefix of the result.
-/

namespace SourceAtlas.OrderedMap

variable {κ α : Type} {map other : OrderedMap κ α} {key : κ} {value : α} {entry : κ × α}
  {entries : List (κ × α)}

theorem mem_keys_iff : key ∈ map.keys ↔ ∃ value, (key, value) ∈ map.entries := by
  simp [keys]

theorem nodup_keys_empty : (empty : OrderedMap κ α).keys.Nodup := List.nodup_nil

theorem size_eq_card [DecidableEq κ] (hn : map.keys.Nodup) :
    map.size = map.keys.toFinset.card := by
  rw [List.toFinset_card_of_nodup hn, keys, List.length_map, size]

section BEq

variable [BEq κ]

theorem merge_nil : map.merge ⟨[]⟩ = map := rfl

theorem merge_cons : map.merge ⟨entry :: entries⟩ = (map.insert entry.1 entry.2).merge ⟨entries⟩ :=
  rfl

end BEq

variable [BEq κ] [LawfulBEq κ]

theorem get?_eq_none_iff : map.get? key = none ↔ key ∉ map.keys := by
  rw [get?, List.lookup_eq_none_iff, mem_keys_iff]
  constructor
  · rintro h ⟨value, hv⟩
    simpa using h _ hv
  · intro h entry he
    simpa using fun hk : key = entry.1 => h ⟨entry.2, by rw [hk]; exact he⟩

/-! ## Setting one key -/

theorem insertEntry_of_not_mem (h : key ∉ entries.map (·.1)) :
    insertEntry key value entries = entries ++ [(key, value)] := by
  induction entries with
  | nil => rfl
  | cons first rest ih =>
    obtain ⟨hk, hr⟩ := not_or.mp (List.mem_cons.not.mp h)
    rw [insertEntry, if_neg (by simpa using hk), ih hr, List.cons_append]

theorem insertEntry_of_agree (h : key ∈ entries.map (·.1))
    (ha : ∀ old, (key, old) ∈ entries → old = value) : insertEntry key value entries = entries := by
  induction entries with
  | nil => simp at h
  | cons first rest ih =>
    obtain ⟨other, old⟩ := first
    by_cases hk : key = other
    · subst hk
      rw [insertEntry, if_pos (by simp), ha old List.mem_cons_self]
    · have hr : key ∈ rest.map (·.1) := by simpa [hk] using h
      rw [insertEntry, if_neg (by simpa using hk),
        ih hr fun old ho => ha old (List.mem_cons_of_mem _ ho)]

theorem entries_insert_of_not_mem (h : key ∉ map.keys) :
    (map.insert key value).entries = map.entries ++ [(key, value)] :=
  insertEntry_of_not_mem h

theorem insertEntry_insertEntry (key : κ) (value new : α) (entries : List (κ × α)) :
    insertEntry key new (insertEntry key value entries) = insertEntry key new entries := by
  induction entries with
  | nil => simp [insertEntry]
  | cons first rest ih =>
    obtain ⟨other, old⟩ := first
    by_cases hk : key == other <;> simp [insertEntry, hk, ih]

/-- Of two values that are set under a key the later counts. -/
@[simp] theorem insert_insert (map : OrderedMap κ α) (key : κ) (value new : α) :
    (map.insert key value).insert key new = map.insert key new :=
  congrArg OrderedMap.mk (insertEntry_insertEntry key value new map.entries)

theorem mem_insertEntry (h : entry ∈ insertEntry key value entries) :
    entry = (key, value) ∨ entry ∈ entries := by
  induction entries with
  | nil => exact Or.inl (by simpa [insertEntry] using h)
  | cons first rest ih =>
    obtain ⟨other, old⟩ := first
    unfold insertEntry at h
    split_ifs at h with hk
    · obtain rfl : key = other := by simpa using hk
      rcases List.mem_cons.mp h with rfl | h
      · exact Or.inl rfl
      · exact Or.inr (List.mem_cons_of_mem _ h)
    · rcases List.mem_cons.mp h with rfl | h
      · exact Or.inr List.mem_cons_self
      · exact (ih h).imp_right (List.mem_cons_of_mem _)

theorem mem_entries_insert (h : entry ∈ (map.insert key value).entries) :
    entry = (key, value) ∨ entry ∈ map.entries :=
  mem_insertEntry h

/-! ## Merging -/

theorem mem_entries_merge (h : entry ∈ (map.merge other).entries) :
    entry ∈ map.entries ∨ entry ∈ other.entries := by
  obtain ⟨entries⟩ := other
  induction entries generalizing map with
  | nil => exact Or.inl h
  | cons first rest ih =>
    rw [merge_cons] at h
    rcases ih h with h | h
    · rcases mem_entries_insert h with rfl | h
      · exact Or.inr List.mem_cons_self
      · exact Or.inl h
    · exact Or.inr (List.mem_cons_of_mem _ h)

/-- Merging new keys appends them. -/
theorem entries_merge_of_new (hn : other.keys.Nodup) (h : ∀ key ∈ other.keys, key ∉ map.keys) :
    (map.merge other).entries = map.entries ++ other.entries := by
  obtain ⟨entries⟩ := other
  induction entries generalizing map with
  | nil => simp [merge_nil]
  | cons first rest ih =>
    obtain ⟨hf, hr⟩ := List.nodup_cons.mp hn
    have hi : (map.insert first.1 first.2).keys = map.keys ++ [first.1] := by
      rw [keys_insert, if_neg (h _ List.mem_cons_self)]
    have hd : ∀ key ∈ keys ⟨rest⟩, key ∉ (map.insert first.1 first.2).keys := by
      intro key hk hm
      rw [hi, List.mem_append, List.mem_singleton] at hm
      rcases hm with hm | rfl
      · exact h key (List.mem_cons_of_mem _ hk) hm
      · exact hf hk
    rw [merge_cons, ih hr hd, entries_insert_of_not_mem (h _ List.mem_cons_self),
      List.append_assoc, List.singleton_append]

theorem ofList_eq (h : (entries.map (·.1)).Nodup) : ofList entries = ⟨entries⟩ := by
  have he : (empty.merge ⟨entries⟩).entries = entries :=
    entries_merge_of_new h (by simp [empty, keys])
  exact congrArg OrderedMap.mk he

/-- What is found under a key after merging a map without repeated keys. -/
theorem get?_merge (hn : other.keys.Nodup) :
    (map.merge other).get? key = (other.get? key).or (map.get? key) := by
  obtain ⟨entries⟩ := other
  induction entries generalizing map with
  | nil => rfl
  | cons first rest ih =>
    obtain ⟨first, old⟩ := first
    obtain ⟨hf, hr⟩ := List.nodup_cons.mp hn
    rw [merge_cons, ih hr, get?_insert]
    by_cases hk : key = first
    · have hl : get? ⟨rest⟩ key = none := get?_eq_none_iff.mpr (hk ▸ hf)
      rw [hl, if_pos (by simp [hk])]
      simp [get?, hk]
    · have hl : (key == first) = false := by simpa using hk
      rw [if_neg (by simp [hl])]
      simp [get?, List.lookup_cons, hl]

/-- The keys after merging a map without repeated keys. -/
theorem keys_merge [DecidableEq κ] (hn : other.keys.Nodup) :
    (map.merge other).keys = map.keys ++ other.keys.filter (· ∉ map.keys) := by
  obtain ⟨entries⟩ := other
  induction entries generalizing map with
  | nil => simp [merge_nil, keys]
  | cons first rest ih =>
    obtain ⟨hf, hr⟩ := List.nodup_cons.mp hn
    rw [merge_cons, ih hr, keys_insert]
    change _ = _ ++ (first.1 :: keys ⟨rest⟩).filter _
    split_ifs with hm
    · rw [List.filter_cons_of_neg (by simpa using hm)]
    · rw [List.filter_cons_of_pos (by simpa using hm), List.append_assoc, List.singleton_append]
      congr 2
      apply List.filter_congr
      intro key hk
      have hne : key ≠ first.1 := by
        rintro rfl
        exact hf hk
      simp [hne]

/-! ## Keys that are held once -/

theorem nodup_keys_insert (h : map.keys.Nodup) (key : κ) (value : α) :
    (map.insert key value).keys.Nodup := by
  rw [keys_insert]
  by_cases hk : key ∈ map.keys
  · rwa [if_pos hk]
  · rw [if_neg hk, ← List.concat_eq_append]
    exact h.concat hk

theorem nodup_keys_merge (h : map.keys.Nodup) (other : OrderedMap κ α) :
    (map.merge other).keys.Nodup := by
  obtain ⟨entries⟩ := other
  induction entries generalizing map with
  | nil => exact h
  | cons first rest ih =>
    rw [merge_cons]
    exact ih (nodup_keys_insert h _ _)

theorem get?_of_mem (hn : map.keys.Nodup) (h : (key, value) ∈ map.entries) :
    map.get? key = some value := by
  obtain ⟨entries⟩ := map
  induction entries with
  | nil => cases h
  | cons first rest ih =>
    obtain ⟨hf, hr⟩ := List.nodup_cons.mp hn
    rcases List.mem_cons.mp h with rfl | h
    · simp [get?]
    · have hne : key ≠ first.1 := by
        rintro rfl
        exact hf (List.mem_map.mpr ⟨_, h, rfl⟩)
      rw [get?, List.lookup_cons, beq_false_of_ne hne]
      exact ih hr h

/-! ## Maps that hold every key once -/

theorem mem_keys_iff_get? : key ∈ map.keys ↔ ∃ value, map.get? key = some value := by
  rw [← not_iff_not, ← get?_eq_none_iff, Option.eq_none_iff_forall_ne_some]
  simp

/-- The entries are determined by the keys in their order and what is found under each. -/
theorem entries_eq_filterMap (hn : map.keys.Nodup) :
    map.entries = map.keys.filterMap fun key => (map.get? key).map (key, ·) := by
  rw [keys, List.filterMap_map]
  symm
  calc map.entries.filterMap ((fun key => (map.get? key).map (key, ·)) ∘ Prod.fst)
      = map.entries.filterMap some := List.filterMap_congr fun entry he => by
        simp [get?_of_mem hn he]
    _ = map.entries := List.filterMap_some

theorem eq_of_keys_eq (hn : map.keys.Nodup) (hk : map.keys = other.keys)
    (hg : ∀ key, map.get? key = other.get? key) : map = other := by
  have he : map.entries = other.entries := by
    rw [entries_eq_filterMap hn, entries_eq_filterMap (hk ▸ hn), hk]
    simp only [hg]
  exact congrArg OrderedMap.mk he

theorem insertEntry_of_lookup (h : List.lookup key entries = some value) :
    insertEntry key value entries = entries := by
  induction entries with
  | nil => cases h
  | cons first rest ih =>
    obtain ⟨other, old⟩ := first
    by_cases hk : key = other
    · subst hk
      simp_all [insertEntry]
    · have hne : (key == other) = false := by simpa using hk
      rw [List.lookup_cons, hne] at h
      simp [insertEntry, hne, ih h]

theorem insert_of_get? (h : map.get? key = some value) : map.insert key value = map :=
  congrArg OrderedMap.mk (insertEntry_of_lookup h)

/-- Merging what a map holds already changes nothing. -/
theorem merge_of_forall_get? (h : ∀ entry ∈ other.entries, map.get? entry.1 = some entry.2) :
    map.merge other = map := by
  obtain ⟨entries⟩ := other
  induction entries with
  | nil => rfl
  | cons first rest ih =>
    rw [merge_cons, insert_of_get? (h first List.mem_cons_self)]
    exact ih fun entry he => h entry (List.mem_cons_of_mem _ he)

theorem merge_self (hn : map.keys.Nodup) : map.merge map = map :=
  merge_of_forall_get? fun _ he => get?_of_mem hn he

theorem merge_merge_self (hn : other.keys.Nodup) :
    (map.merge other).merge other = map.merge other := by
  apply merge_of_forall_get?
  intro entry he
  simp [get?_merge hn, get?_of_mem hn he]

section DecidableEq

variable [DecidableEq κ] {last : OrderedMap κ α}

theorem mem_keys_merge (hn : other.keys.Nodup) :
    key ∈ (map.merge other).keys ↔ key ∈ map.keys ∨ key ∈ other.keys := by
  rw [keys_merge hn]
  by_cases hk : key ∈ map.keys <;> simp [hk]

/-- Of a key that several maps hold, the first gives the place and the last the value. -/
theorem merge_assoc (hm : map.keys.Nodup) (ho : other.keys.Nodup) (hl : last.keys.Nodup) :
    (map.merge other).merge last = map.merge (other.merge last) := by
  have hol := nodup_keys_merge ho last
  apply eq_of_keys_eq (nodup_keys_merge (nodup_keys_merge hm _) _)
  · -- Behind the keys of the first map stand the new ones of the second, then those of the third.
    calc ((map.merge other).merge last).keys
        = map.keys ++ other.keys.filter (· ∉ map.keys) ++
            last.keys.filter (· ∉ (map.merge other).keys) := by rw [keys_merge hl, keys_merge ho]
      _ = map.keys ++ (other.keys ++ last.keys.filter (· ∉ other.keys)).filter
            (· ∉ map.keys) := by
          simp [List.filter_append, List.filter_filter, mem_keys_merge ho]
      _ = (map.merge (other.merge last)).keys := by rw [keys_merge hol, keys_merge hl]
  · intro key
    rw [get?_merge hl, get?_merge ho, get?_merge hol, get?_merge hl, Option.or_assoc]

theorem size_merge (hm : map.keys.Nodup) (ho : other.keys.Nodup) :
    (map.merge other).size = (map.keys.toFinset ∪ other.keys.toFinset).card := by
  rw [size_eq_card (nodup_keys_merge hm other)]
  congr 1
  ext key
  simp [mem_keys_merge ho]

end DecidableEq

/-! ## Beginnings that are kept -/

theorem prefix_insert (h : ∀ old, (key, old) ∈ map.entries → old = value) :
    map.entries <+: (map.insert key value).entries := by
  by_cases hk : key ∈ map.keys
  · rw [insert, insertEntry_of_agree hk h]
  · rw [entries_insert_of_not_mem hk]
    exact List.prefix_append _ _

/-- Merging a map keeps the entries as they are when one function gives the values of both. -/
theorem prefix_merge {f : κ → α} (hm : ∀ entry ∈ map.entries, entry.2 = f entry.1)
    (ho : ∀ entry ∈ other.entries, entry.2 = f entry.1) :
    map.entries <+: (map.merge other).entries := by
  obtain ⟨entries⟩ := other
  induction entries generalizing map with
  | nil => exact List.prefix_rfl
  | cons first rest ih =>
    have hf : first.2 = f first.1 := ho _ List.mem_cons_self
    rw [merge_cons]
    refine (prefix_insert fun old h => (hm _ h).trans hf.symm).trans (ih ?_ fun entry h =>
      ho entry (List.mem_cons_of_mem _ h))
    intro entry h
    rcases mem_entries_insert h with rfl | h
    · exact hf
    · exact hm entry h

end SourceAtlas.OrderedMap
