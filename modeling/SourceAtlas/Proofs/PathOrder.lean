import Mathlib.Tactic
import Mathlib.Data.String.Basic
import SourceAtlas.Path

/-! # Sets of paths in order

The paths of a list, each once and in ascending order of their components. Leaving paths out before
or after they are put in order makes no difference.
-/

namespace SourceAtlas

section Lists

variable {α : Type} {le : α → α → Bool}

/-- Sorting is stable: the first item comes between the others that it is not below and the others
that it is below. -/
theorem mergeSort_cons_eq (trans : ∀ a b c, le a b → le b c → le a c)
    (total : ∀ a b, le a b || le b a) (first : α) (rest : List α) :
    (first :: rest).mergeSort le =
        (rest.mergeSort le).filter (!le first ·) ++
          first :: (rest.mergeSort le).filter (le first ·) ∧
      rest.mergeSort le =
        (rest.mergeSort le).filter (!le first ·) ++ (rest.mergeSort le).filter (le first ·) := by
  obtain ⟨before, after, hsorted, hrest, hbefore⟩ := List.mergeSort_cons trans total first rest
  have hp := List.pairwise_mergeSort trans total (first :: rest)
  rw [hsorted] at hp
  have hafter : ∀ item ∈ after, le first item :=
    (List.pairwise_cons.mp (List.pairwise_append.mp hp).2.1).1
  have hb : (rest.mergeSort le).filter (!le first ·) = before := by
    rw [hrest, List.filter_append, List.filter_eq_self.mpr hbefore,
      List.filter_eq_nil_iff.mpr fun item hi => by simpa using hafter item hi, List.append_nil]
  have ha : (rest.mergeSort le).filter (le first ·) = after := by
    rw [hrest, List.filter_append, List.filter_eq_self.mpr hafter,
      List.filter_eq_nil_iff.mpr fun item hi => by simpa using hbefore item hi, List.nil_append]
  rw [hb, ha]
  exact ⟨hsorted, hrest⟩

/-- Items may be left out before or after sorting. -/
theorem filter_mergeSort (trans : ∀ a b c, le a b → le b c → le a c)
    (total : ∀ a b, le a b || le b a) (p : α → Bool) (items : List α) :
    (items.mergeSort le).filter p = (items.filter p).mergeSort le := by
  induction items with
  | nil => simp
  | cons first rest ih =>
    -- Both parts of the sorted rest are filters of it, and filters commute.
    have hcomm : ∀ q : α → Bool, ((rest.mergeSort le).filter q).filter p =
        ((rest.filter p).mergeSort le).filter q := by
      intro q
      rw [← ih, List.filter_filter, List.filter_filter]
      simp only [Bool.and_comm]
    obtain ⟨hwith, hwithout⟩ := mergeSort_cons_eq trans total first (rest.filter p)
    rw [(mergeSort_cons_eq trans total first rest).1, List.filter_append, hcomm]
    by_cases hf : p first
    · rw [List.filter_cons_of_pos hf, List.filter_cons_of_pos hf, hcomm, hwith]
    · rw [List.filter_cons_of_neg hf, List.filter_cons_of_neg hf, hcomm, ← hwithout]

variable [BEq α]

/-- What holds of the items without those that equal the first holds with them: the recursion by
which repetitions are left out. -/
theorem eraseDups_induction {motive : List α → Prop} (nil : motive [])
    (cons : ∀ first rest, motive (rest.filter fun item => !item == first) → motive (first :: rest))
    (items : List α) : motive items := by
  induction h : items.length using Nat.strong_induction_on generalizing items with
  | _ size ih =>
    cases items with
    | nil => exact nil
    | cons first rest =>
      have hle := List.length_filter_le (fun item => !item == first) rest
      rw [List.length_cons] at h
      exact cons first rest (ih _ (by omega) _ rfl)

theorem eraseDups_sublist (items : List α) : items.eraseDups.Sublist items := by
  induction items using eraseDups_induction with
  | nil => exact List.Sublist.refl _
  | cons first rest ih =>
    rw [List.eraseDups_cons]
    exact (ih.trans List.filter_sublist).cons_cons first

variable [LawfulBEq α]

theorem nodup_eraseDups (items : List α) : items.eraseDups.Nodup := by
  induction items using eraseDups_induction with
  | nil => exact List.nodup_nil
  | cons first rest ih =>
    rw [List.eraseDups_cons]
    exact List.nodup_cons.mpr ⟨by simp [List.mem_eraseDups], ih⟩

theorem eraseDups_eq_self {items : List α} (h : items.Nodup) : items.eraseDups = items :=
  (eraseDups_sublist items).eq_of_length_le
    (h.subperm fun _ hi => List.mem_eraseDups.mpr hi).length_le

/-- Items may be left out before or after repetitions are. -/
theorem filter_eraseDups (p : α → Bool) (items : List α) :
    items.eraseDups.filter p = (items.filter p).eraseDups := by
  induction items using eraseDups_induction with
  | nil => rfl
  | cons first rest ih =>
    rw [List.eraseDups_cons]
    by_cases hf : p first
    · rw [List.filter_cons_of_pos hf, List.filter_cons_of_pos hf, List.eraseDups_cons, ih,
        List.filter_filter, List.filter_filter]
      simp only [Bool.and_comm]
    · rw [List.filter_cons_of_neg hf, List.filter_cons_of_neg hf, ih, List.filter_filter]
      refine congrArg List.eraseDups (List.filter_congr fun item _ => ?_)
      by_cases he : item = first
      · simp [he, hf]
      · simp [he]

end Lists

namespace Path

variable {path : Path} {paths : List Path}

theorem le_iff {a b : Path} : a.le b ↔ a.sortKey ≤ b.sortKey := by
  simp [le]

protected theorem le_trans (a b c : Path) (h : a.le b) (h' : b.le c) : a.le c :=
  le_iff.mpr ((le_iff.mp h).trans (le_iff.mp h'))

protected theorem le_total (a b : Path) : a.le b || b.le a := by
  rw [Bool.or_eq_true, le_iff, le_iff]
  exact le_total _ _

theorem mem_sorted : path ∈ sorted paths ↔ path ∈ paths := by
  rw [sorted, List.mem_eraseDups, List.mem_mergeSort]

theorem nodup_sorted (paths : List Path) : (sorted paths).Nodup :=
  nodup_eraseDups _

theorem pairwise_sorted (paths : List Path) :
    (sorted paths).Pairwise fun a b => a.sortKey ≤ b.sortKey :=
  ((List.pairwise_mergeSort Path.le_trans Path.le_total paths).sublist
    (eraseDups_sublist _)).imp le_iff.mp

theorem sorted_sorted (paths : List Path) : sorted (sorted paths) = sorted paths := by
  have hp := (pairwise_sorted paths).imp le_iff.mpr
  rw [sorted, List.mergeSort_of_pairwise hp, eraseDups_eq_self (nodup_sorted paths)]

theorem filter_sorted (p : Path → Bool) (paths : List Path) :
    (sorted paths).filter p = sorted (paths.filter p) := by
  rw [sorted, filter_eraseDups, filter_mergeSort Path.le_trans Path.le_total, sorted]

end Path

end SourceAtlas
