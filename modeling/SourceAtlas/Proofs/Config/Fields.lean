import Mathlib.Data.String.Basic
import SourceAtlas.Config
import SourceAtlas.Proofs.PathOrder
import SourceAtlas.Proofs.Value.Reading

/-! # Fields of a configuration

A configuration is built from its fields one by one, each of which is read or has its default. Its
sets of names ascend, and its own fields build it again but for its extensions, which are normalised
once more.
-/

namespace SourceAtlas

/-! ## Sets of names -/

section NameSet

variable {name : String} {names other : List String}

@[simp] theorem mem_nameSet : name ∈ nameSet names ↔ name ∈ names := by
  rw [nameSet, List.mem_eraseDups, List.mem_mergeSort]

theorem pairwise_nameSet (names : List String) : (nameSet names).Pairwise (· < ·) := by
  have htrans : ∀ a b c : String, decide (a ≤ b) → decide (b ≤ c) → decide (a ≤ c) := by
    intro a b c hab hbc
    exact decide_eq_true ((of_decide_eq_true hab).trans (of_decide_eq_true hbc))
  have htotal : ∀ a b : String, decide (a ≤ b) || decide (b ≤ a) := by
    intro a b
    simpa using String.le_total a b
  have hsorted := (List.pairwise_mergeSort htrans htotal names).sublist (eraseDups_sublist _)
  exact (hsorted.and (nodup_eraseDups _)).imp fun h => lt_of_le_of_ne (of_decide_eq_true h.1) h.2

theorem nameSet_eq_iff : nameSet names = nameSet other ↔ ∀ name, name ∈ names ↔ name ∈ other := by
  constructor
  · intro h name
    rw [← @mem_nameSet name names, h, mem_nameSet]
  · intro h
    refine (pairwise_nameSet names).eq_of_mem_iff (pairwise_nameSet other) fun name => ?_
    rw [mem_nameSet, mem_nameSet, h]

theorem nameSet_of_pairwise (h : names.Pairwise (· < ·)) : nameSet names = names :=
  (pairwise_nameSet names).eq_of_mem_iff h fun _ => mem_nameSet

end NameSet

namespace Config

variable {config : Config} {fields : List (String × Value)} {names : List String}

theorem ofFields_eq_ok_iff : ofFields fields = .ok config ↔
    Value.optional "ignored" ({} : Config).ignored readIgnored fields = .ok config.ignored ∧
      Value.optional "linted_extensions" ({} : Config).extensions readExtensions fields =
        .ok config.extensions ∧
      Value.optional "max_workers" ({} : Config).maxWorkers readMaxWorkers fields =
        .ok config.maxWorkers := by
  rw [ofFields, Checked.map_eq_ok_iff]
  constructor
  · rintro ⟨⟨⟨ignored, extensions⟩, maxWorkers⟩, hread, rfl⟩
    simpa [and_assoc] using hread
  · rintro ⟨hignored, hextensions, hworkers⟩
    exact ⟨((config.ignored, config.extensions), config.maxWorkers),
      by simp [hignored, hextensions, hworkers], rfl⟩

theorem readIgnored_names (names : List String) :
    readIgnored (.list (names.map .text)) = .ok (nameSet names) := by
  have hall : Checked.all Value.readText 0 (names.map .text) = .ok names :=
    Checked.all_map_eq_ok fun _ _ => rfl
  rw [readIgnored, hall]
  rfl

theorem readExtensions_names (names : List String) :
    readExtensions (.list (names.map .text)) = .ok (nameSet (names.map normalise)) := by
  rw [readExtensions, List.map_map]
  rfl

/-! ## Built configurations -/

structure IsBuilt (config : Config) : Prop where
  ignored : config.ignored.Pairwise (· < ·)
  extensions : config.extensions.Pairwise (· < ·)
  maxWorkers : ∀ n, config.maxWorkers = some n → 1 ≤ n

theorem isBuilt_default : IsBuilt {} := ⟨by decide, by decide, nofun⟩

theorem isBuilt_of_ofFields (h : ofFields fields = .ok config) : config.IsBuilt := by
  obtain ⟨hignored, hextensions, hworkers⟩ := ofFields_eq_ok_iff.mp h
  constructor
  case ignored =>
    rcases Value.optional_eq_ok_iff.mp hignored with ⟨-, hd⟩ | ⟨value, -, hr⟩
    · exact hd ▸ isBuilt_default.ignored
    · unfold readIgnored at hr
      split at hr
      · obtain ⟨names, -, hn⟩ := Checked.map_eq_ok_iff.mp hr
        exact hn ▸ pairwise_nameSet names
      · cases hr
  case extensions =>
    rcases Value.optional_eq_ok_iff.mp hextensions with ⟨-, hd⟩ | ⟨value, -, hr⟩
    · exact hd ▸ isBuilt_default.extensions
    · unfold readExtensions at hr
      split at hr
      · exact Except.ok.inj hr ▸ pairwise_nameSet _
      · exact Except.ok.inj hr ▸ pairwise_nameSet _
      · cases hr
  case maxWorkers =>
    intro n hn
    rcases Value.optional_eq_ok_iff.mp hworkers with ⟨-, hd⟩ | ⟨value, -, hr⟩
    · exact absurd (hd.trans hn) (Option.some_ne_none n).symm
    · rw [hn] at hr
      unfold readMaxWorkers at hr
      split at hr
      · cases hr
      · split at hr
        · split_ifs at hr
          · obtain rfl := Option.some.inj (Except.ok.inj hr)
            omega
          · cases hr
        · cases hr

/-- The own fields of a built configuration build it again, with its extensions normalised. -/
theorem IsBuilt.ofFields_toFields (h : config.IsBuilt) :
    ofFields config.toFields =
      .ok { config with extensions := nameSet (config.extensions.map normalise) } := by
  refine ofFields_eq_ok_iff.mpr ⟨?_, ?_, ?_⟩ <;> refine Value.optional_eq_ok_iff.mpr (Or.inr ⟨_, rfl, ?_⟩)
  · rw [readIgnored_names, nameSet_of_pairwise h.ignored]
  · exact readExtensions_names config.extensions
  · cases hn : config.maxWorkers with
    | none => rfl
    | some n =>
      have hle : (1 : Int) ≤ n := by exact_mod_cast h.maxWorkers n hn
      simp only [readMaxWorkers, Value.readInt, if_pos hle, Int.toNat_natCast]

end Config

end SourceAtlas
