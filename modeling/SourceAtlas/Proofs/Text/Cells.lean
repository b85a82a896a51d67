import Mathlib
import SourceAtlas.Text.Blank
import SourceAtlas.Text.Cells
import SourceAtlas.Text.Printable

/-! # Cells of texts put together

A text takes up at least the cells of its parts, as a part can only be shown wider for what stands
before it, unless a joiner takes in what follows.
-/

namespace SourceAtlas.Text

variable {c : Char} {chars rest : List Char} {last : Option Char}

/-! ## Printable characters -/

theorem inRanges_iff {ranges : List (ℕ × ℕ)} :
    inRanges ranges c ↔ ∃ range ∈ ranges, range.1 ≤ c.toNat ∧ c.toNat ≤ range.2 := by
  simp [inRanges, List.any_eq_true]

/-- The printable characters of ASCII. -/
theorem isPrintable_of_ascii (h : 32 ≤ c.toNat) (h' : c.toNat ≤ 126) : isPrintable c := by
  have hranges : ∀ range ∈ unprintable, range.2 < 32 ∨ 126 < range.1 := by decide +kernel
  rw [isPrintable, Bool.not_eq_true', Bool.eq_false_iff, Ne, inRanges_iff]
  rintro ⟨range, hr, hlow, hhigh⟩
  rcases hranges range hr with hlt | hlt <;> omega

/-- A printable character is none that codes of characters that are not printable stand for. -/
theorem contains_toNat_of_isPrintable (h : isPrintable c) {codes : List ℕ}
    (hc : ∀ code ∈ codes, isPrintable (Char.ofNat code) = false) :
    codes.contains c.toNat = false := by
  rw [List.contains_eq_mem, decide_eq_false_iff_not]
  intro hm
  have hn := hc c.toNat hm
  rw [Char.ofNat_toNat, h] at hn
  cases hn

/-- The space is the only printable blank. -/
theorem eq_space_of_isBlank (h : isPrintable c) (hb : isBlank c) : c = ' ' := by
  have hranges : ∀ range ∈ whiteSpace ++ [(0x1C, 0x1F)], range = (32, 32) ∨
      ∃ other ∈ unprintable, other.1 ≤ range.1 ∧ range.2 ≤ other.2 := by decide +kernel
  have hblank : inRanges (whiteSpace ++ [(0x1C, 0x1F)]) c := by
    rwa [isBlank, isWhiteSpace, inRanges, inRanges, ← List.any_append] at hb
  obtain ⟨range, hr, hlow, hhigh⟩ := inRanges_iff.mp hblank
  rcases hranges range hr with rfl | ⟨other, ho, hl, hh⟩
  · exact Char.toNat_inj.mp (Nat.le_antisymm hhigh hlow)
  · rw [isPrintable, Bool.not_eq_true', Bool.eq_false_iff, Ne, inRanges_iff] at h
    exact absurd ⟨other, ho, hl.trans hlow, hhigh.trans hh⟩ h

theorem toNat_of_isDigit (h : c.isDigit) : 48 ≤ c.toNat ∧ c.toNat ≤ 57 := by
  simp only [Char.isDigit, Bool.and_eq_true, decide_eq_true_eq] at h
  exact h

theorem not_isBlank_of_isDigit (h : c.isDigit) : ¬isBlank c := by
  obtain ⟨hlow, hhigh⟩ := toNat_of_isDigit h
  intro hb
  obtain rfl := eq_space_of_isBlank (isPrintable_of_ascii (by omega) (by omega)) hb
  exact absurd hlow (by decide)

theorem isDigit_of_mem_toString {n : ℕ} (h : c ∈ (toString n).toList) : c.isDigit := by
  rw [Nat.toString_eq_repr, Nat.toList_repr] at h
  exact Nat.isDigit_of_mem_toDigits (by decide) (by decide) h

/-! ## Cells -/

theorem cellsAfter_cons (h : c ≠ joiner) : cellsAfter last (c :: rest) =
    if c = wideSelector then widening last + cellsAfter none rest
    else if cellsOf c = 0 then cellsAfter last rest
    else cellsOf c + cellsAfter (some c) rest := by
  rw [cellsAfter.eq_def]
  simp only [if_neg h]

theorem cellsAfter_none_le (last : Option Char) (chars : List Char) :
    cellsAfter none chars ≤ cellsAfter last chars := by
  fun_induction cellsAfter last chars with
  | case1 | case2 => simp [cellsAfter]
  | case3 last c rest ih => simpa [cellsAfter] using ih
  | case4 last rest hj _ => simp [cellsAfter_cons hj, widening]
  | case5 last c rest hj hw hz ih => simpa [cellsAfter_cons hj, hw, hz] using ih
  | case6 last c rest hj hw hz _ => simp [cellsAfter_cons hj, hw, hz]

/-- No character takes up more than two cells. -/
theorem cellsAfter_le (last : Option Char) (chars : List Char) :
    cellsAfter last chars ≤ 2 * chars.length := by
  have hcells : ∀ c, cellsOf c ≤ 2 := by
    intro c
    unfold cellsOf
    split_ifs <;> omega
  have hwidening : ∀ last, widening last ≤ 1 := by
    intro last
    unfold widening
    split_ifs <;> omega
  fun_induction cellsAfter last chars with
  | case1 | case2 => exact Nat.zero_le _
  | case3 last c rest ih => simp only [List.length_cons]; omega
  | case4 last rest _ ih =>
    have hlast := hwidening last
    rw [List.length_cons]
    omega
  | case5 last c rest _ _ _ ih => rw [List.length_cons]; omega
  | case6 last c rest _ _ _ ih =>
    have hc := hcells c
    rw [List.length_cons]
    omega

theorem cells_le (chars : List Char) : cells chars ≤ 2 * chars.length :=
  cellsAfter_le none chars

theorem cellsAfter_append_le (h : joiner ∉ chars) (last : Option Char) (rest : List Char) :
    cellsAfter last chars + cells rest ≤ cellsAfter last (chars ++ rest) := by
  induction chars generalizing last with
  | nil => simpa [cells, cellsAfter] using cellsAfter_none_le last rest
  | cons c chars ih =>
    rw [List.mem_cons, not_or] at h
    obtain ⟨hj, hchars⟩ := h
    have ih := ih hchars
    rw [List.cons_append, cellsAfter_cons (Ne.symm hj), cellsAfter_cons (Ne.symm hj)]
    split_ifs
    · rw [Nat.add_assoc]
      exact Nat.add_le_add_left (ih none) _
    · exact ih last
    · rw [Nat.add_assoc]
      exact Nat.add_le_add_left (ih (some c)) _

theorem cells_append_le (h : joiner ∉ chars) (rest : List Char) :
    cells chars + cells rest ≤ cells (chars ++ rest) :=
  cellsAfter_append_le h none rest

theorem cells_take_le (h : joiner ∉ chars) (count : ℕ) :
    cells (chars.take count) ≤ cells chars := by
  have ht : joiner ∉ chars.take count := mt List.mem_of_mem_take h
  have hle := cells_append_le ht (chars.drop count)
  rw [List.take_append_drop] at hle
  omega

/-- Spaces take up a cell each, whatever stands before them. -/
theorem cellsAfter_spaces (last : Option Char) (count : ℕ) :
    cellsAfter last (List.replicate count ' ') = count := by
  have hs : cellsOf ' ' = 1 := by decide +kernel
  induction count generalizing last with
  | zero => rfl
  | succ count ih =>
    rw [List.replicate_succ, cellsAfter_cons (by decide), if_neg (by decide), hs,
      if_neg (by decide), ih, Nat.add_comm]

theorem cellsAfter_append_spaces (h : joiner ∉ chars) (last : Option Char) (count : ℕ) :
    cellsAfter last (chars ++ List.replicate count ' ') = cellsAfter last chars + count := by
  induction chars generalizing last with
  | nil => simp [cellsAfter_spaces, cellsAfter]
  | cons c chars ih =>
    rw [List.mem_cons, not_or] at h
    obtain ⟨hj, hchars⟩ := h
    rw [List.cons_append, cellsAfter_cons (Ne.symm hj), cellsAfter_cons (Ne.symm hj)]
    split_ifs
    · rw [ih hchars, Nat.add_assoc]
    · exact ih hchars last
    · rw [ih hchars, Nat.add_assoc]

theorem cells_append_spaces (h : joiner ∉ chars) (count : ℕ) :
    cells (chars ++ List.replicate count ' ') = cells chars + count :=
  cellsAfter_append_spaces h none count

end SourceAtlas.Text
