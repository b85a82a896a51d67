import Mathlib.Data.List.Forall2
import SourceAtlas.Value.Reading

/-! # What readers accept

A value is read if all its parts are: both of two, every item of a list, the value of a field. Where
an issue would be reported has no part in it.
-/

namespace SourceAtlas

namespace Checked

variable {α β : Type} {place : Place} {a : α} {b : β} {first : Checked α} {second : Checked β}
  {read : α → Checked β} {index : ℕ} {items : List α} {found : List β}

@[simp] theorem under_eq_ok_iff : under place first = .ok a ↔ first = .ok a := by
  cases first <;> simp [under]

@[simp] theorem both_eq_ok_iff :
    first.both second = .ok (a, b) ↔ first = .ok a ∧ second = .ok b := by
  cases first <;> cases second <;> simp [both]

theorem map_eq_ok_iff {f : α → β} : first.map f = .ok b ↔ ∃ a, first = .ok a ∧ f a = b := by
  cases first <;> simp [Except.map]

theorem all_eq_ok_iff : all read index items = .ok found ↔
    List.Forall₂ (fun item b => read item = .ok b) items found := by
  induction items generalizing index found with
  | nil => cases found <;> simp [all]
  | cons item rest ih =>
    rw [all, map_eq_ok_iff]
    constructor
    · rintro ⟨⟨b, bs⟩, hread, rfl⟩
      rw [both_eq_ok_iff, under_eq_ok_iff, ih] at hread
      exact .cons hread.1 hread.2
    · rintro (_ | ⟨hb, hbs⟩)
      exact ⟨_, both_eq_ok_iff.mpr ⟨under_eq_ok_iff.mpr hb, ih.mpr hbs⟩, rfl⟩

/-- A list is read back if each of its items is. -/
theorem all_map_eq_ok {write : β → α} (h : ∀ b ∈ found, read (write b) = .ok b) :
    all read index (found.map write) = .ok found := by
  rw [all_eq_ok_iff, List.forall₂_map_left_iff]
  exact List.forall₂_same.mpr h

end Checked

namespace Value

variable {α : Type} {name : String} {absent a : α} {read : Value → Checked α}
  {fields : List (String × Value)}

theorem required_eq_ok_iff : required name read fields = .ok a ↔
    ∃ value, field? fields name = some value ∧ read value = .ok a := by
  rw [required, Checked.under_eq_ok_iff]
  cases field? fields name <;> simp [Checked.fail]

theorem optional_eq_ok_iff : optional name absent read fields = .ok a ↔
    field? fields name = none ∧ absent = a ∨
      ∃ value, field? fields name = some value ∧ read value = .ok a := by
  rw [optional, Checked.under_eq_ok_iff]
  cases field? fields name <;> simp

end Value

end SourceAtlas
