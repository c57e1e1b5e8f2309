import PolicyReview.Proofs.Schema.Keyword

/-! Schemas of draft 4 as a whole. A schema either refers to another one and is that schema, or asks
what its keywords ask. -/

namespace PolicyReview.Schema

variable {root root' value : Json} {fuel fuel' : Nat} {fields fields' : Json.Fields}
  {reference : String}

def reference? (fields : Json.Fields) : Option String :=
  (fields.lookup "$ref").bind Json.string?

theorem violations_false : violations .four root fuel (.bool false) value ≠ [] := by
  cases fuel <;> simp [violations, here]

theorem violations_reference (ascending : Ascending fields)
    (referred : reference? fields = some reference) :
    violations .four root (fuel + 1) (.object fields) value = [] ↔
      ∀ target, resolve? root reference = some target →
        violations .four root fuel target value = [] := by
  obtain ⟨argument, found, text⟩ := Option.bind_eq_some_iff.1 referred
  have only : effective .four fields = fields.filter (·.1 = "$ref") := by
    have hidden : (fields.lookup "$ref").bind Json.string? = some reference := referred
    simp only [effective, hidden]
  have inside : ∀ field, field ∈ fields.filter (·.1 = "$ref") ↔ field = ("$ref", argument) := by
    rintro ⟨keyword, other⟩
    rw [List.mem_filter, decide_eq_true_eq, ← ascending.lookup_eq_some]
    constructor
    · rintro ⟨here, rfl⟩
      rw [Option.some.inj (here.symm.trans found)]
    · rintro ⟨⟩
      exact ⟨found, rfl⟩
  simp only [violations, only, List.flatMap_eq_nil_iff, inside, forall_eq, text, Option.bind_some]
  cases resolve? root reference <;> simp

theorem violations_keywords (ascending : Ascending fields) (plain : reference? fields = none) :
    violations .four root (fuel + 1) (.object fields) value = [] ↔
      ∀ field ∈ fields, validateKeyword .four (violations .four root fuel) fields
        field.1 field.2 value = [] := by
  have all : effective .four fields = ordered fields := by
    have shown : (fields.lookup "$ref").bind Json.string? = none := plain
    simp only [effective, shown]
  have inside : ∀ field, field ∈ ordered fields ↔ field ∈ fields := fun field => by
    rw [ordered, List.mem_append, List.mem_filter, List.mem_filter, ← and_or_left]
    simp [ne_or_eq]
  simp only [violations, all, List.flatMap_eq_nil_iff, inside]
  refine forall₂_congr fun field member => ?_
  split
  next keyword here =>
    have nothing : field.2.string?.bind (resolve? root) = none := by
      have found := ascending.lookup_eq_some.2 member
      rw [here] at found
      rw [reference?, found, Option.bind_some] at plain
      rw [plain, Option.bind_none]
    rw [nothing, here]
    exact iff_of_true rfl rfl
  · rfl

/-- What a schema accepts is accepted by one that matches it. -/
theorem Matches.violations_handed
    (matched : Matches (Agree (violations .four root fuel) (violations .four root' fuel') value)
      fields fields')
    (plain : reference? fields = none) (plain' : reference? fields' = none)
    (accepted : violations .four root (fuel + 1) (.object fields) value = []) :
    violations .four root' (fuel' + 1) (.object fields') value = [] := by
  rw [violations_keywords matched.ascending plain] at accepted
  rw [violations_keywords matched.ascending' plain']
  exact matched.accepts (fun _ => violations_false) accepted

end PolicyReview.Schema
