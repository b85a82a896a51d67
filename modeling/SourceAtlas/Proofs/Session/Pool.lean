import Mathlib.Tactic
import SourceAtlas.Session.Pool

/-! # What a pool does with tasks

A pool is done with all tasks, in an order in which each task is passed over at most for those that
are under way with it. Every such order comes about. A single worker keeps to the order of the
tasks. What came of the tasks is put back into their order.
-/

namespace SourceAtlas.Pool

variable {α : Type} {workers : ℕ} {picks places : List ℕ} {tasks finished : List α}

/-! ## The order in which tasks are done -/

/-- Each time one of the tasks is done that are under way: the first of those that are left, as many
as there are workers. -/
inductive Finishes (workers : ℕ) : List α → List α → Prop
  | nil : Finishes workers [] []
  | cons {tasks finished : List α} {place : ℕ} (hp : place < tasks.length) : place < workers →
      Finishes workers (tasks.eraseIdx place) finished →
      Finishes workers tasks (tasks[place] :: finished)

theorem arrange_cons_of_lt {place : ℕ} (h : place < tasks.length) (hw : place < workers) :
    arrange workers (place :: picks) tasks =
      tasks[place] :: arrange workers picks (tasks.eraseIdx place) := by
  have hmin : min place (workers - 1) = place := by omega
  rw [arrange, hmin, List.getElem?_eq_getElem h]
  rfl

theorem finishes_self (hw : 0 < workers) (tasks : List α) : Finishes workers tasks tasks := by
  induction tasks with
  | nil => exact .nil
  | cons task rest ih => exact .cons (Nat.zero_lt_succ _) hw ih

/-- What a pool can do is what its workers can do, one task after the other. -/
theorem finishes_iff (hw : 0 < workers) :
    Finishes workers tasks finished ↔ ∃ picks, arrange workers picks tasks = finished := by
  constructor
  · intro h
    induction h with
    | nil => exact ⟨[], rfl⟩
    | cons hp hplace _ ih =>
      obtain ⟨picks, rfl⟩ := ih
      exact ⟨_ :: picks, arrange_cons_of_lt hp hplace⟩
  · rintro ⟨picks, rfl⟩
    induction picks generalizing tasks with
    | nil => exact finishes_self hw tasks
    | cons pick picks ih =>
      have hplace : min pick (workers - 1) < workers := by omega
      rw [arrange]
      by_cases hp : min pick (workers - 1) < tasks.length
      · rw [List.getElem?_eq_getElem hp]
        exact .cons hp hplace ih
      · rw [List.getElem?_eq_none (Nat.not_lt.mp hp), List.eraseIdx_of_length_le (Nat.not_lt.mp hp)]
        exact ih

theorem Finishes.map {β : Type} (f : α → β) (h : Finishes workers tasks finished) :
    Finishes workers (tasks.map f) (finished.map f) := by
  induction h with
  | nil => exact .nil
  | @cons tasks finished place hp hplace _ ih =>
    have hp' : place < (tasks.map f).length := by rwa [List.length_map]
    rw [← List.eraseIdx_map] at ih
    rw [List.map_cons, ← List.getElem_map f]
    exact .cons hp' hplace ih

theorem perm_arrange (workers : ℕ) (picks : List ℕ) (tasks : List α) :
    (arrange workers picks tasks).Perm tasks := by
  induction picks generalizing tasks with
  | nil => exact .refl tasks
  | cons pick picks ih =>
    rw [arrange]
    refine ((ih _).append_left _).trans ?_
    by_cases hp : min pick (workers - 1) < tasks.length
    · rw [List.getElem?_eq_getElem hp]
      exact List.getElem_cons_eraseIdx_perm hp
    · rw [List.getElem?_eq_none (Nat.not_lt.mp hp), List.eraseIdx_of_length_le (Nat.not_lt.mp hp)]
      exact .refl tasks

theorem arrange_of_le_one (h : workers ≤ 1) (picks : List ℕ) (tasks : List α) :
    arrange workers picks tasks = tasks := by
  induction picks generalizing tasks with
  | nil => rfl
  | cons pick picks ih =>
    have hmin : min pick (workers - 1) = 0 := by omega
    rw [arrange, hmin, ih]
    cases tasks <;> rfl

/-! ## What came of the tasks -/

variable {β : Type} {results : List β}

theorem filterMap_getElem?_range (items : List α) :
    (List.range items.length).filterMap (items[·]?) = items := by
  induction items with
  | nil => rfl
  | cons item rest ih =>
    rw [List.length_cons, List.range_succ_eq_map, List.filterMap_cons, List.filterMap_map]
    exact congrArg (item :: ·) ih

theorem map_idxOf (hn : places.Nodup) (hl : places.length = results.length) :
    places.map (fun place => results[places.idxOf place]?) = results.map some := by
  apply List.ext_getElem
  · simpa using hl
  · intro i hi hi'
    simp only [List.length_map] at hi hi'
    rw [List.getElem_map, List.getElem_map, hn.idxOf_getElem i hi, List.getElem?_eq_getElem hi']

/-- Nothing that came of a task is lost. -/
theorem perm_collect (h : places.Perm (List.range results.length)) :
    (collect places results).Perm results := by
  have hl : places.length = results.length := h.length_eq.trans List.length_range
  have hfilled : places.filterMap (fun place => results[places.idxOf place]?) = results := by
    have hmap := congrArg (List.filterMap id)
      (map_idxOf (h.nodup_iff.mpr List.nodup_range) hl)
    rw [List.filterMap_map, List.filterMap_map] at hmap
    exact hmap.trans List.filterMap_some
  rw [collect]
  refine (h.symm.filterMap _).trans ?_
  rw [hfilled]

/-- What came of the tasks is in their order again. -/
theorem forall₂_collect {P : α → β → Prop} {items : List α} {tasks : List (α × ℕ)}
    (ht : tasks.Perm items.zipIdx) (h : List.Forall₂ P (tasks.map (·.1)) results) :
    List.Forall₂ P items (collect (tasks.map (·.2)) results) := by
  have hplaces : (tasks.map (·.2)).Perm (List.range items.length) := by
    simpa [List.zipIdx_map_snd, List.range_eq_range'] using ht.map (·.2)
  have hn : (tasks.map (·.2)).Nodup := hplaces.nodup_iff.mpr List.nodup_range
  have hl : results.length = items.length := by
    rw [← h.length_eq, List.length_map, ht.length_eq, List.length_zipIdx]
  -- Each item meets what came of it at the place of its task.
  have hmeet : ∀ place < items.length, Option.Rel P items[place]?
      results[(tasks.map (·.2)).idxOf place]? := by
    intro place hp
    have hmem : (items[place], place) ∈ tasks :=
      ht.mem_iff.mpr (List.mem_zipIdx_iff_getElem?.mpr (List.getElem?_eq_getElem hp))
    obtain ⟨j, hj, htask⟩ := List.getElem_of_mem hmem
    have hindex : (tasks.map (·.2)).idxOf place = j := by
      have hj' : j < (tasks.map (·.2)).length := by rwa [List.length_map]
      have hplace : (tasks.map (·.2))[j] = place := by rw [List.getElem_map, htask]
      rw [← hplace]
      exact hn.idxOf_getElem j hj'
    have hjr : j < results.length := by rwa [hl, ← List.length_zipIdx, ← ht.length_eq]
    have hpair := h.get (by rwa [List.length_map]) hjr
    simp only [List.get_eq_getElem, List.getElem_map, htask] at hpair
    rw [hindex, List.getElem?_eq_getElem hp, List.getElem?_eq_getElem hjr]
    exact .some hpair
  have hrange : List.Forall₂ (fun place other => place = other ∧ place < items.length)
      (List.range items.length) (List.range items.length) :=
    List.forall₂_same.mpr fun place hp => ⟨rfl, List.mem_range.mp hp⟩
  rw [collect, hl]
  nth_rewrite 1 [← filterMap_getElem?_range items]
  refine List.rel_filterMap ?_ hrange
  rintro place _ ⟨rfl, hp⟩
  exact hmeet place hp

theorem collect_zipIdx {items : List α} (h : items.length = results.length) :
    collect (items.zipIdx.map (·.2)) results = results := by
  have hsame : items.zipIdx.map (·.2) = results.zipIdx.map (·.2) := by
    simp [List.zipIdx_map_snd, h]
  have hself : List.Forall₂ Eq (results.zipIdx.map (·.1)) results := by
    simp [List.zipIdx_map_fst]
  have hcollect := forall₂_collect (.refl results.zipIdx) hself
  rw [List.forall₂_eq_eq_eq] at hcollect
  rw [hsame, ← hcollect]

end SourceAtlas.Pool
