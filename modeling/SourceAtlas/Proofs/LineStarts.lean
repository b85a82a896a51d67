import Mathlib.Tactic
import SourceAtlas.LineIndex

/-! # Where lines start

The scan from newline to newline goes through the bytes one by one: it splits where they are split,
and it finds the position after every newline byte and no other.
-/

namespace SourceAtlas.LineIndex

variable {bytes : Bytes}

theorem startsFrom_of_none (offset : ℕ) (h : bytes.findIdx? (· == newline) = none) :
    startsFrom offset bytes = [] := by
  fun_cases startsFrom offset bytes with
  | case1 => rfl
  | case2 i hi => exact absurd (h.symm.trans hi) nofun

theorem startsFrom_of_some (offset : ℕ) {i : ℕ} (h : bytes.findIdx? (· == newline) = some i) :
    startsFrom offset bytes =
      (offset + i + 1) :: startsFrom (offset + i + 1) (bytes.drop (i + 1)) := by
  fun_cases startsFrom offset bytes with
  | case1 hn => exact absurd (h.symm.trans hn) nofun
  | case2 j hj =>
    obtain rfl := Option.some.inj (h.symm.trans hj)
    rfl

@[simp] theorem startsFrom_nil (offset : ℕ) : startsFrom offset [] = [] :=
  startsFrom_of_none offset rfl

theorem startsFrom_cons (offset : ℕ) (b : UInt8) (rest : Bytes) :
    startsFrom offset (b :: rest) =
      (if b = newline then [offset + 1] else []) ++ startsFrom (offset + 1) rest := by
  by_cases hb : b = newline
  · rw [if_pos hb, startsFrom_of_some offset (i := 0) (by simp [hb, List.findIdx?_cons])]
    rfl
  · have hf : (b :: rest).findIdx? (· == newline) =
        (rest.findIdx? (· == newline)).map (· + 1) := by
      simp [List.findIdx?_cons, hb]
    rw [if_neg hb, List.nil_append]
    cases h : rest.findIdx? (· == newline) with
    | none => rw [startsFrom_of_none _ h, startsFrom_of_none offset (by rw [hf, h]; rfl)]
    | some i =>
      rw [startsFrom_of_some _ h, startsFrom_of_some offset (i := i + 1) (by rw [hf, h]; rfl),
        List.drop_succ_cons]
      have he : offset + (i + 1) + 1 = offset + 1 + i + 1 := by omega
      rw [he]

theorem startsFrom_append (offset : ℕ) (a b : Bytes) :
    startsFrom offset (a ++ b) = startsFrom offset a ++ startsFrom (offset + a.length) b := by
  induction a generalizing offset with
  | nil => simp
  | cons x a ih =>
    rw [List.cons_append, startsFrom_cons, startsFrom_cons, ih, List.append_assoc, List.length_cons,
      Nat.add_right_comm]
    rfl

theorem startsFrom_eq (offset : ℕ) (bytes : Bytes) : startsFrom offset bytes =
    ((List.range bytes.length).filter fun i => bytes[i]? = some newline).map (offset + · + 1) := by
  induction bytes generalizing offset with
  | nil => simp
  | cons b rest ih =>
    have hm : (fun i => offset + (i + 1) + 1) = fun i => offset + 1 + i + 1 := by
      funext i; omega
    rw [startsFrom_cons, ih, List.length_cons, List.range_succ_eq_map, List.filter_cons,
      List.filter_map]
    by_cases hb : b = newline <;>
      simp [hb, Function.comp_def, hm]

/-- The starts are zero and the position after each newline byte. -/
theorem startsOf_eq (bytes : Bytes) : startsOf bytes =
    0 :: ((List.range bytes.length).filter fun i => bytes[i]? = some 0x0A).map (· + 1) := by
  simp only [startsOf, startsFrom_eq, Nat.zero_add]
  rfl

end SourceAtlas.LineIndex
