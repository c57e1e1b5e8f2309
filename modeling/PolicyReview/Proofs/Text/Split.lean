import Mathlib.Data.List.Basic

/-! Texts cut at a separator. -/

namespace PolicyReview.Text

variable {α : Type} [BEq α] [LawfulBEq α] {separator : α} {text piece : List α}

theorem notMem_of_mem_splitOn (member : piece ∈ text.splitOn separator) : separator ∉ piece := by
  induction text generalizing piece with
  | nil => simp_all
  | cons first rest ih =>
    rw [List.splitOn_cons_eq_if_modifyHead] at member
    split at member
    next same =>
      rcases List.mem_cons.1 member with rfl | later
      · exact List.not_mem_nil
      · exact ih later
    next different =>
      obtain ⟨head, tail, cut⟩ := List.exists_cons_of_ne_nil (List.splitOn_ne_nil separator rest)
      rw [cut, List.modifyHead_cons] at member
      rcases List.mem_cons.1 member with rfl | later
      · have apart : separator ≠ first := fun same => different (by simp [same])
        have inRest : head ∈ rest.splitOn separator := by simp [cut]
        simpa [apart] using ih inRest
      · exact ih (by simp [cut, later])

theorem splitOn_unbroken (unbroken : separator ∉ text) : text.splitOn separator = [text] := by
  apply List.splitOnP_eq_singleton
  intro item member
  rw [beq_eq_false_iff_ne]
  rintro rfl
  exact unbroken member

theorem splitOn_append_cons (unbroken : separator ∉ text) (later : List α) :
    (text ++ separator :: later).splitOn separator = text :: later.splitOn separator := by
  have cut : (text ++ separator :: later).splitOn separator =
      text.splitOn separator ++ later.splitOn separator :=
    List.splitOnP_append_cons text later (beq_self_eq_true separator)
  rw [cut, splitOn_unbroken unbroken, List.singleton_append]

omit [BEq α] [LawfulBEq α] in
theorem eq_or_mem_of_mem_intersperse {mark item : α} {items : List α}
    (member : item ∈ items.intersperse mark) : item = mark ∨ item ∈ items := by
  fun_induction List.intersperse mark items <;> grind

end PolicyReview.Text
