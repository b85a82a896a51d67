import Mathlib
import SourceAtlas.Console.Line
import SourceAtlas.Proofs.Text.Cells

/-! # Texts that fit on a line

A printable text that takes up no more cells than the line has is shown as it is: its words, however
they are put together, fit one after the other.
-/

namespace SourceAtlas.Console

open Text (isBlank isPrintable cells joiner)

variable {chars rest line : List Char} {words : List (List Char)} {overflow : Overflow}
  {width used : ℕ}

/-! ## Words -/

theorem flatten_joinWord (c : Char) (words : List (List Char)) :
    (joinWord c words).flatten = c :: words.flatten := by
  unfold joinWord
  split
  · split_ifs <;> rfl
  · rfl

theorem flatten_foldr_joinWord (line : List Char) : (line.foldr joinWord []).flatten = line := by
  induction line with
  | nil => rfl
  | cons c line ih => rw [List.foldr_cons, flatten_joinWord, ih]

/-- The words of a line make it up. -/
theorem flatten_words (h : Console.words line ≠ []) : (Console.words line).flatten = line := by
  have hflatten := flatten_foldr_joinWord line
  unfold Console.words at h ⊢
  generalize line.foldr joinWord [] = words at h hflatten ⊢
  rcases words with _ | ⟨first, rest⟩
  · exact absurd rfl h
  · by_cases hb : first.all isBlank
    · simp only [hb, if_true] at h ⊢
      rcases rest with _ | ⟨next, rest⟩
      · exact absurd rfl h
      · simpa using hflatten
    · simpa only [hb, if_false, Bool.false_eq_true] using hflatten

theorem cells_word_le (h : joiner ∉ chars) : cells (withoutBlanksAtEnd chars) ≤ cells chars :=
  Text.cells_take_le h _

/-- Words that fit a line make up one. -/
theorem layOut_of_fits (h : joiner ∉ words.flatten) (hw : used + cells words.flatten ≤ width) :
    layOut overflow width line used words = [line ++ words.flatten] := by
  induction words generalizing line used with
  | nil => simp [layOut]
  | cons word words ih =>
    rw [List.flatten_cons] at h hw ⊢
    rw [List.mem_append, not_or] at h
    -- Cells of a word and of those after it add up to no more than what they take up together.
    have happend := Text.cells_append_le h.1 words.flatten
    have hword := cells_word_le h.1
    rw [layOut, if_pos (by omega), ih h.2 (by omega), List.append_assoc]

theorem broken_of_fits (h : joiner ∉ line) (hw : cells line ≤ width) :
    broken overflow width line = [line] := by
  unfold broken
  split
  · rfl
  · next hne =>
    have hflatten := flatten_words hne
    rw [layOut_of_fits (by rwa [hflatten]) (by rwa [hflatten, Nat.zero_add]), hflatten,
      List.nil_append]

/-! ## Lines -/

theorem shorten_of_fits (hw : cells line ≤ width) : overflow.shorten width line = line := by
  unfold Overflow.shorten
  exact if_pos hw

theorem fitted_of_fits (hw : cells line ≤ width) (hlast : line.getLast?.any isBlank = false) :
    overflow.fitted width line = line := by
  have hend : blanksAtEnd line = 0 := by
    rcases List.eq_nil_or_concat line with rfl | ⟨start, c, rfl⟩
    · rfl
    · rw [List.concat_eq_append, List.getLast?_concat, Option.any_some] at hlast
      rw [List.concat_eq_append, blanksAtEnd, List.reverse_concat,
        List.takeWhile_cons_of_neg (Bool.eq_false_iff.mp hlast), List.length_nil]
  rw [Overflow.fitted, cropEnd, hend, Nat.zero_min, Nat.sub_zero, List.take_length,
    shorten_of_fits hw]

theorem fit_of_fits (h : joiner ∉ line) (hw : cells line ≤ width)
    (hlast : line.getLast?.any isBlank = false) : fit overflow width line = [line] := by
  rw [fit, broken_of_fits h hw, List.map_singleton, fitted_of_fits hw hlast]

/-! ## Printable texts -/

def Printable (chars : List Char) : Prop :=
  ∀ c ∈ chars, isPrintable c

instance (chars : List Char) : Decidable (Printable chars) :=
  decidable_of_iff (chars.all isPrintable) List.all_eq_true

/-- Whether a text is printable and has no colons, between which there may be codes. -/
def Presentable (chars : List Char) : Prop :=
  ∀ c ∈ chars, isPrintable c ∧ c ≠ ':'

theorem printable_append_iff : Printable (chars ++ rest) ↔ Printable chars ∧ Printable rest :=
  List.forall_mem_append

theorem printable_of_ascii
    (h : chars.all fun c => 32 ≤ c.toNat && c.toNat ≤ 126) : Printable chars := by
  intro c hc
  have hbounds := List.all_eq_true.mp h c hc
  simp only [Bool.and_eq_true, decide_eq_true_eq] at hbounds
  exact Text.isPrintable_of_ascii hbounds.1 hbounds.2

theorem presentable_of_ascii
    (h : chars.all fun c => 32 ≤ c.toNat && c.toNat ≤ 126 && c != ':') : Presentable chars := by
  intro c hc
  have hbounds := List.all_eq_true.mp h c hc
  simp only [Bool.and_eq_true, decide_eq_true_eq, bne_iff_ne] at hbounds
  exact ⟨Text.isPrintable_of_ascii hbounds.1.1 hbounds.1.2, hbounds.2⟩

theorem presentable_append_iff :
    Presentable (chars ++ rest) ↔ Presentable chars ∧ Presentable rest :=
  List.forall_mem_append

namespace Printable

theorem not_mem (h : Printable chars) {c : Char} (hc : isPrintable c = false) : c ∉ chars :=
  fun hm => Bool.eq_false_iff.mp hc (h c hm)

theorem joiner_not_mem (h : Printable chars) : joiner ∉ chars :=
  h.not_mem (by decide +kernel)

theorem filter_isDropped (h : Printable chars) : chars.filter (!isDropped ·) = chars := by
  refine List.filter_eq_self.mpr fun c hc => ?_
  rw [isDropped, Text.contains_toNat_of_isPrintable (h c hc) (by decide +kernel)]
  rfl

theorem expandTabs_eq (h : Printable chars) : expandTabs chars = chars := by
  have htab : '\t' ∉ chars := h.not_mem (by decide +kernel)
  rw [expandTabs, List.splitOn_eq_singleton htab]
  rfl

theorem splitOn_eq (h : Printable chars) : chars.splitOn '\n' = [chars] :=
  List.splitOn_eq_singleton (h.not_mem (by decide +kernel))

theorem shownLines_eq (h : Printable chars) : shownLines chars = [chars] := by
  rw [shownLines, h.filter_isDropped, h.splitOn_eq, List.map_singleton, h.expandTabs_eq]

/-- A printable text whose lines stay whole is shown as it is. -/
theorem shown_eq {text : String} (h : Printable text.toList) : shown text = text := by
  rw [shown, h.shownLines_eq]
  simp

end Printable

namespace Presentable

theorem printable (h : Presentable chars) : Printable chars :=
  fun c hc => (h c hc).1

theorem colon_not_mem (h : Presentable chars) : ':' ∉ chars :=
  fun hm => (h ':' hm).2 rfl

end Presentable

/-- A printable text that fits on a line and does not end in a blank is shown as it is. -/
theorem shownFolded_of_fits {text : String} (h : Printable text.toList)
    (hw : cells text.toList ≤ width) (hlast : text.toList.getLast?.any isBlank = false) :
    shownFolded width text = text := by
  rw [shownFolded, h.shownLines_eq, List.flatMap_singleton, fit_of_fits h.joiner_not_mem hw hlast]
  simp

end SourceAtlas.Console
