import Mathlib.Tactic
import SourceAtlas.FileKind

/-! # Extensions and kinds

A name has an extension exactly when it ends with a dot and that extension and has something in
front of the dot.
-/

namespace SourceAtlas

theorem extensionOf_eq_iff {name extension : List Char} (hn : extension ≠ [])
    (hd : '.' ∉ extension) :
    extensionOf name = extension ↔ ∃ stem ≠ [], name = stem ++ '.' :: extension := by
  constructor
  · intro h
    unfold extensionOf at h
    split at h
    · next dot first rest hs =>
      have hdot : dot = '.' := by
        have hne : name.reverse.dropWhile (· ≠ '.') ≠ [] := hs ▸ List.cons_ne_nil _ _
        have hnot := List.head_dropWhile_not (· ≠ '.') hne
        simp only [hs, List.head_cons] at hnot
        simpa using hnot
      refine ⟨(first :: rest).reverse, by simp, ?_⟩
      have hr := List.takeWhile_append_dropWhile (p := (· ≠ '.')) (l := name.reverse)
      rw [hs, hdot] at hr
      have hl := congrArg List.reverse hr
      rw [List.reverse_reverse, List.reverse_append, h] at hl
      rw [← hl]
      simp
    · exact absurd h.symm hn
  · rintro ⟨stem, hs, rfl⟩
    have hp : ∀ c ∈ extension.reverse, (decide (c ≠ '.')) = true := by
      intro c hc
      have : c ≠ '.' := by
        rintro rfl
        exact hd (List.mem_reverse.mp hc)
      simpa using this
    obtain ⟨first, rest, hf⟩ := List.exists_cons_of_ne_nil (List.reverse_ne_nil_iff.mpr hs)
    have hr : (stem ++ '.' :: extension).reverse = extension.reverse ++ '.' :: first :: rest := by
      simp [hf]
    unfold extensionOf
    rw [hr, List.dropWhile_append_of_pos hp, List.takeWhile_append_of_pos hp]
    simp

/-- A path names a module exactly when its last component is something and then `.mjs`. -/
theorem FileKind.ofPath_eq_module_iff {path : Path} :
    FileKind.ofPath path = .module ↔ ∃ stem ≠ "", path.name = stem ++ ".mjs" := by
  have he : path.extension = "mjs" ↔ extensionOf path.name.toList = ['m', 'j', 's'] := by
    rw [Path.extension, ← String.toList_inj, String.toList_ofList]
    rfl
  have hk : FileKind.ofPath path = .module ↔ path.extension = "mjs" := by
    unfold FileKind.ofPath
    split <;> simp_all
  rw [hk, he, extensionOf_eq_iff (by simp) (by decide)]
  constructor
  · rintro ⟨stem, hs, h⟩
    refine ⟨String.ofList stem, ?_, ?_⟩
    · intro hn
      exact hs (by simpa using congrArg String.toList hn)
    · rw [← String.toList_inj, h, String.toList_append, String.toList_ofList]
      rfl
  · rintro ⟨stem, hs, h⟩
    refine ⟨stem.toList, ?_, ?_⟩
    · intro hn
      exact hs (String.toList_inj.mp hn)
    · rw [h, String.toList_append]
      rfl

end SourceAtlas
