import PolicyReview.Json
import Mathlib.Data.List.Basic

/-! Fields of JSON objects that are read as texts, as lists of texts or as objects. -/

namespace PolicyReview.Json

variable {value : Json} {name text : String} {fields : Fields}

theorem string?_eq_some : value.string? = some text ↔ value = .string text := by
  cases value <;> simp [string?]

theorem object?_eq_some : value.object? = some fields ↔ value = .object fields := by
  cases value <;> simp [object?]

theorem mapM_string?_eq_some {items : List Json} {texts : List String} :
    items.mapM string? = some texts ↔ items = texts.map .string := by
  induction items generalizing texts with
  | nil => cases texts <;> simp
  | cons item rest ih =>
    simp only [List.mapM_cons, Option.bind_eq_bind, Option.bind_eq_some_iff, ih, string?_eq_some]
    constructor
    · rintro ⟨text, rfl, others, rfl, same⟩
      obtain rfl := Option.some.inj same
      rfl
    · intro written
      cases texts with
      | nil => cases written
      | cons text others =>
        obtain ⟨rfl, rfl⟩ := List.cons.inj written
        exact ⟨text, rfl, others, rfl, rfl⟩

theorem textField_of_string (given : value.field? name = some (.string text)) :
    value.textField name = text := by
  rw [textField, given]
  rfl

/-- A field is read as a text that is not empty exactly when it holds that text. -/
theorem textField_eq (filled : text ≠ "") :
    value.textField name = text ↔ value.field? name = some (.string text) := by
  refine ⟨fun read => ?_, textField_of_string⟩
  cases held : (value.field? name).bind string? with
  | none =>
    rw [textField, held] at read
    exact absurd read.symm filled
  | some other =>
    rw [textField, held] at read
    obtain ⟨field, given, isText⟩ := Option.bind_eq_some_iff.1 held
    rw [given, string?_eq_some.1 isText, ← read]
    rfl

theorem textField_eq_empty : value.textField name = "" ↔
    ¬∃ text, value.field? name = some (.string text) ∧ text ≠ "" := by
  constructor
  · rintro empty ⟨text, given, filled⟩
    rw [textField_of_string given] at empty
    exact filled empty
  · intro absent
    by_contra filled
    exact absent ⟨_, (textField_eq filled).1 rfl, filled⟩

end PolicyReview.Json
