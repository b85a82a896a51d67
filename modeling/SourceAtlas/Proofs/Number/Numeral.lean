import Mathlib.Data.List.Basic
import Mathlib.Data.List.TakeWhile
import SourceAtlas.Number.Numeral

/-! # Numerals that are read back

The decimal notation of a natural number is a bare numeral, and is read as that number unless it has
too many digits.
-/

namespace SourceAtlas.Numeral

variable {text : List Char} {n : Nat}

theorem isDigit_of_mem_toDigits {c : Char} (h : c ∈ Nat.toDigits 10 n) : isDigit c :=
  Nat.isDigit_of_mem_toDigits (by decide) (by decide) h

theorem head?_toDigits_ne_zero (h : 0 < n) : (Nat.toDigits 10 n).head? ≠ some '0' := by
  induction n using Nat.strongRecOn with
  | ind n ih =>
    by_cases hlt : n < 10
    · rw [Nat.toDigits_of_lt_base hlt, List.head?_cons, ne_eq, Option.some_inj]
      intro hzero
      have hcode := Nat.toNat_digitChar_of_lt_ten hlt
      rw [hzero] at hcode
      change 48 = 48 + n at hcode
      omega
    · have hle : 10 ≤ n := Nat.le_of_not_lt hlt
      rw [Nat.toDigits_of_base_le (by decide) hle,
        List.head?_append_of_ne_nil _ Nat.toDigits_ne_nil]
      exact ih (n / 10) (by omega) (by omega)

theorem valueOf_toDigits (n : Nat) : valueOf (Nat.toDigits 10 n) = n := by
  have hstep : (fun (m : Nat) (c : Char) => m * 10 + (c.toNat - '0'.toNat)) =
      fun m c => 10 * m + (c.toNat - '0'.toNat) := by
    funext m c
    rw [Nat.mul_comm]
  rw [valueOf, hstep]
  exact Nat.ofDigitChars_toDigits (by decide) (by decide)

/-- Digits of which the first is no zero are a bare numeral. -/
theorem bare_of_digits (hne : text ≠ []) (hdigits : ∀ c ∈ text, isDigit c)
    (hzero : text.head? ≠ some '0') (hlength : text.length ≤ maxDigits) :
    bare text = .ok (valueOf text) := by
  have hrun : text.takeWhile isDigit = text := List.takeWhile_eq_self_iff.mpr hdigits
  unfold bare
  split
  next negative digits hsign =>
    split at hsign
    · exact absurd (hdigits '-' List.mem_cons_self) (by decide)
    · obtain ⟨rfl, rfl⟩ := Prod.mk.inj hsign
      rw [hrun]
      split
      · exact absurd rfl hne
      · exact absurd rfl hzero
      · exact absurd rfl hzero
      · rw [if_neg (Nat.not_lt.mpr hlength), if_neg (lt_irrefl _)]
        rfl

theorem read_toString (h : (toString n).length ≤ maxDigits) : read (toString n) = .ok n := by
  rcases Nat.eq_zero_or_pos n with rfl | hpos
  · decide
  · have hchars : (toString n).toList = Nat.toDigits 10 n := by
      rw [Nat.toString_eq_ofList_toDigits, String.toList_ofList]
    rw [← String.length_toList, hchars] at h
    have hbare := bare_of_digits Nat.toDigits_ne_nil (fun _ => isDigit_of_mem_toDigits)
      (head?_toDigits_ne_zero hpos) h
    rw [read, hchars, hbare, valueOf_toDigits]

end SourceAtlas.Numeral
