import Mathlib.Data.List.DropRight
import SourceAtlas.Text.Blank

/-! # Trimmed texts

Trimming takes away what a text has of a class of characters at its ends, and nothing else. The
texts that it leaves as they are have none there.
-/

namespace SourceAtlas.Text

variable {drop : Char → Bool} {text before after : List Char}

structure IsTrimmed (drop : Char → Bool) (text : List Char) : Prop where
  head : ∀ c ∈ text.head?, ¬drop c
  last : ∀ c ∈ text.getLast?, ¬drop c

theorem trim_eq_rdropWhile (drop : Char → Bool) (text : List Char) :
    trim drop text = (text.dropWhile drop).rdropWhile drop := rfl

open List in
theorem trim_prefix_dropWhile (drop : Char → Bool) (text : List Char) :
    trim drop text <+: text.dropWhile drop :=
  rdropWhile_prefix drop (text.dropWhile drop)

theorem trim_sublist (drop : Char → Bool) (text : List Char) : (trim drop text).Sublist text :=
  (trim_prefix_dropWhile drop text).sublist.trans (List.dropWhile_sublist drop)

theorem isTrimmed_trim (drop : Char → Bool) (text : List Char) :
    IsTrimmed drop (trim drop text) := by
  constructor
  · intro c hc
    obtain ⟨rest, hr⟩ := List.head?_eq_some_iff.mp hc
    obtain ⟨more, hm⟩ := trim_prefix_dropWhile drop text
    have hnot := text.head?_dropWhile_not drop
    rw [← hm, hr, List.cons_append, List.head?_cons] at hnot
    simpa using hnot
  · rw [trim_eq_rdropWhile]
    intro c hc
    obtain ⟨hn, rfl⟩ := List.mem_getLast?_eq_getLast hc
    exact List.rdropWhile_last_not drop _ hn

theorem trim_eq_self_iff : trim drop text = text ↔ IsTrimmed drop text := by
  refine ⟨fun h => h ▸ isTrimmed_trim drop text, fun h => ?_⟩
  have hfront : text.dropWhile drop = text := by
    cases text with
    | nil => rfl
    | cons c rest => exact List.dropWhile_cons_of_neg (h.head c rfl)
  rw [trim_eq_rdropWhile, hfront, List.rdropWhile_eq_self_iff]
  exact fun hn => h.last _ (List.getLast?_eq_some_getLast hn)

instance (drop : Char → Bool) (text : List Char) : Decidable (IsTrimmed drop text) :=
  decidable_of_iff _ trim_eq_self_iff

theorem trim_eq_nil_iff : trim drop text = [] ↔ ∀ c ∈ text, drop c := by
  rw [trim_eq_rdropWhile, List.rdropWhile_eq_nil_iff]
  refine ⟨fun h c hc => ?_, fun h c hc => h c (List.dropWhile_subset drop hc)⟩
  rw [← List.takeWhile_append_dropWhile (p := drop) (l := text), List.mem_append] at hc
  exact hc.elim (fun hc => List.mem_takeWhile_imp hc) (h c)

/-- What is put around a text is taken away with its own ends. -/
theorem trim_append (hb : ∀ c ∈ before, drop c) (ha : ∀ c ∈ after, drop c) :
    trim drop (before ++ text ++ after) = trim drop text := by
  have hback : ∀ chars : List Char, (chars ++ after).rdropWhile drop = chars.rdropWhile drop := by
    intro chars
    rw [List.rdropWhile, List.reverse_append,
      List.dropWhile_append_of_pos fun c hc => ha c (List.mem_reverse.mp hc), List.rdropWhile]
  rw [trim_eq_rdropWhile, trim_eq_rdropWhile, List.append_assoc, List.dropWhile_append_of_pos hb,
    List.dropWhile_append]
  split_ifs with hempty
  · have hnil := List.isEmpty_iff.mp hempty
    rw [List.dropWhile_eq_nil_iff.mpr ha, hnil]
  · exact hback _

theorem isTrimmed_strip (text : String) : IsTrimmed isBlank (strip text).toList := by
  rw [strip, String.toList_ofList]
  exact isTrimmed_trim isBlank text.toList

theorem strip_eq_self_iff {text : String} : strip text = text ↔ IsTrimmed isBlank text.toList := by
  rw [← trim_eq_self_iff, ← String.toList_inj, strip, String.toList_ofList]

end SourceAtlas.Text
