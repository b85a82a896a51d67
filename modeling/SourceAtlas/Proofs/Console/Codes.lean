import Mathlib
import SourceAtlas.Console.Codes
import SourceAtlas.Proofs.Text.Cells

/-! # Texts without short codes

No code is in a text without colons, and a colon before a blank begins none. Of a number between
colons it is known by the codes themselves whether it is one: a numeral asks for no variant and has
no case.
-/

namespace SourceAtlas.Text

variable {c : Char} {chars : List Char}

/-- The letters of ASCII come after its digits. -/
theorem smallLetter_of_lt (h : c.toNat < 65) : smallLetter c = c := by
  have hshifted : ∀ range ∈ shifted, 65 ≤ range.1 := by decide +kernel
  have halternating : ∀ range ∈ alternating, 65 ≤ range.1 := by decide +kernel
  rw [smallLetter, List.find?_eq_none.mpr fun range hr => ?_,
    List.find?_eq_none.mpr fun range hr => ?_]
  · have hlow := halternating range hr
    simp only [Bool.and_eq_true, decide_eq_true_eq, not_and]
    omega
  · have hlow := hshifted range hr
    simp only [Bool.and_eq_true, decide_eq_true_eq, not_and]
    omega

theorem lowerAfter_of_lt (h : ∀ c ∈ chars, c.toNat < 65) (before : List Char) :
    lowerAfter before chars = chars := by
  induction chars generalizing before with
  | nil => rfl
  | cons c chars ih =>
    obtain ⟨hc, hrest⟩ := List.forall_mem_cons.mp h
    have hsigma : c ≠ '\u03a3' := by rintro rfl; exact absurd hc (by decide)
    have hdotted : c ≠ '\u0130' := by rintro rfl; exact absurd hc (by decide)
    rw [lowerAfter, ih hrest, lowerBetween, if_neg fun h => hsigma h.1, if_neg hdotted,
      smallLetter_of_lt hc, List.singleton_append]

end SourceAtlas.Text

namespace SourceAtlas.Console.Codes

open Text (isBlank)

variable {codes : Codes} {chars name rest : List Char} {text : String}

theorem replace_append (h : ':' ∉ chars) (rest : List Char) :
    codes.replace (chars ++ rest) = chars ++ codes.replace rest := by
  induction chars with
  | nil => rfl
  | cons c chars ih =>
    rw [List.mem_cons, not_or] at h
    rw [replace, List.cons_append, replaceAfter, if_neg (Ne.symm h.1), ← replace, ih h.2,
      List.cons_append]

theorem replace_of_not_mem (h : ':' ∉ chars) : codes.replace chars = chars := by
  rw [← List.append_nil chars, replace_append h]
  rfl

theorem shownFor_of_not_mem (h : ':' ∉ text.toList) : codes.shownFor text = text := by
  rw [shownFor, replace_of_not_mem h, String.ofList_toList]

theorem replaceAfter_name (h : ∀ c ∈ name, inName c) (pending rest : List Char) :
    replaceAfter codes (some pending) (name ++ rest) =
      replaceAfter codes (some (name.reverse ++ pending)) rest := by
  induction name generalizing pending with
  | nil => rfl
  | cons c name ih =>
    obtain ⟨hc, hname⟩ := List.forall_mem_cons.mp h
    have hcolon : c ≠ ':' := by rintro rfl; exact absurd hc (by decide)
    rw [List.cons_append, replaceAfter, if_neg hcolon, if_pos hc, ih hname, List.reverse_cons,
      List.append_assoc, List.singleton_append]

/-- What stands between two colons is a code or is left as it is. -/
theorem replace_name (h : ∀ c ∈ name, inName c) (rest : List Char) :
    codes.replace (':' :: name ++ ':' :: rest) = codes.expand name ++ codes.replace rest := by
  rw [replace, List.cons_append, replaceAfter, if_pos rfl, replaceAfter_name h, replaceAfter,
    if_pos rfl, List.append_nil, List.reverse_reverse, replace]

/-- A blank ends what may have been a code. -/
theorem replace_blank {c : Char} (hc : isBlank c) (rest : List Char) :
    codes.replace (':' :: c :: rest) = ':' :: c :: codes.replace rest := by
  have hcolon : c ≠ ':' := by rintro rfl; exact absurd hc (by decide +kernel)
  have hname : ¬inName c := by simp [inName, hc]
  rw [replace, replaceAfter, if_pos rfl, replaceAfter, if_neg hcolon, if_neg hname, replace]
  rfl

/-- Texts on both sides of a colon with a blank are shown each by itself. -/
theorem shownFor_append (h : ':' ∉ text.toList) (rest : String) :
    codes.shownFor (text ++ ": " ++ rest) = text ++ ": " ++ codes.shownFor rest := by
  have htext : (text ++ ": " ++ rest).toList = text.toList ++ ':' :: ' ' :: rest.toList := by simp
  refine String.toList_inj.mp ?_
  rw [shownFor, shownFor, htext, replace_append h, replace_blank (by decide)]
  simp

/-! ## Numbers between colons -/

def ofNumber (codes : Codes) (n : ℕ) : String :=
  (codes.lookup (toString n)).getD (":" ++ toString n ++ ":")

theorem ofNumber_of_lookup {n : ℕ} (h : codes.lookup (toString n) = none) :
    codes.ofNumber n = ":" ++ toString n ++ ":" := by
  rw [ofNumber, h, Option.getD_none]

theorem toNat_of_mem_toString {n : ℕ} {c : Char} (h : c ∈ (toString n).toList) :
    48 ≤ c.toNat ∧ c.toNat ≤ 57 :=
  Text.toNat_of_isDigit (Text.isDigit_of_mem_toString h)

theorem colon_not_mem_toString (n : ℕ) : ':' ∉ (toString n).toList :=
  fun hm => absurd (toNat_of_mem_toString hm).2 (by decide)

theorem variantOf_toString (n : ℕ) : variantOf (toString n).toList = ((toString n).toList, []) := by
  have hsuffix : ∀ {suffix : List Char}, '-' ∈ suffix →
      suffix.isSuffixOf (toString n).toList = false := by
    intro suffix hm
    rw [Bool.eq_false_iff, Ne, List.isSuffixOf_iff_suffix]
    exact fun h => absurd (toNat_of_mem_toString (h.subset hm)).1 (by decide)
  rw [variantOf, hsuffix (by decide), hsuffix (by decide)]
  rfl

theorem expand_toString (codes : Codes) (n : ℕ) :
    codes.expand (toString n).toList = (codes.ofNumber n).toList := by
  have hlower : Text.lower (toString n).toList = (toString n).toList :=
    Text.lowerAfter_of_lt (fun c hc => (toNat_of_mem_toString hc).2.trans_lt (by decide)) _
  rw [expand, variantOf_toString]
  dsimp only
  rw [hlower, String.ofList_toList, ofNumber]
  cases codes.lookup (toString n) with
  | none => simp
  | some text => simp

/-- Of a name, a number and what follows them, only the number between its colons may be a code, and
what follows may hold some. -/
theorem shownFor_position (h : ':' ∉ text.toList) (n : ℕ) (rest : String) :
    codes.shownFor (text ++ ":" ++ toString n ++ ":" ++ rest) =
      text ++ codes.ofNumber n ++ codes.shownFor rest := by
  have hname : ∀ c ∈ (toString n).toList, inName c := by
    intro c hc
    have hcolon : c ≠ ':' := by
      rintro rfl
      exact absurd (toNat_of_mem_toString hc).2 (by decide)
    have hblank := Text.not_isBlank_of_isDigit (Text.isDigit_of_mem_toString hc)
    simp [inName, hcolon, hblank]
  have htext : (text ++ ":" ++ toString n ++ ":" ++ rest).toList =
      text.toList ++ (':' :: (toString n).toList ++ ':' :: rest.toList) := by simp
  refine String.toList_inj.mp ?_
  rw [shownFor, shownFor, htext, replace_append h, replace_name hname, expand_toString]
  simp

end SourceAtlas.Console.Codes
