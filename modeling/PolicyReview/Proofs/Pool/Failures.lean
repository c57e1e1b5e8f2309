import PolicyReview.Pool
import PolicyReview.Proofs.StableSort
import Mathlib.Data.Nat.Basic

/-! The failures of a batch. Sorting by index is stable, so it depends on nothing but the failures
of each index in their own order; outcomes of distinct indices thus give the same error in
whatever order they come. -/

namespace PolicyReview

namespace Pool

theorem index_of_mem_failuresOf {outcome : Outcome} {failure : BatchFailure}
    (member : failure ∈ failuresOf outcome) : failure.index = outcome.index := by
  unfold failuresOf at member
  split at member
  · obtain ⟨error, _, rfl⟩ := List.mem_map.1 member
    rfl
  · rw [List.mem_singleton.1 member]

theorem filter_index_eq {outcomes : List Outcome} (distinct : (outcomes.map (·.index)).Nodup)
    {outcome : Outcome} (member : outcome ∈ outcomes) :
    outcomes.filter (·.index = outcome.index) = [outcome] := by
  induction outcomes with
  | nil => cases member
  | cons first rest ih =>
    obtain ⟨new, distinct⟩ := List.nodup_cons.1 distinct
    obtain rfl | later := List.mem_cons.1 member
    · have others : rest.filter (·.index = outcome.index) = [] := by
        rw [List.filter_eq_nil_iff]
        intro other inside same
        exact new (List.mem_map.2 ⟨other, inside, by simpa using same⟩)
      rw [List.filter_cons_of_pos (by simp), others]
    · have apart : first.index ≠ outcome.index := fun same =>
        new (List.mem_map.2 ⟨outcome, later, same.symm⟩)
      rw [List.filter_cons_of_neg (by simpa using apart), ih distinct later]

theorem filter_flatMap_failuresOf (outcomes : List Outcome) (k : Nat) :
    (outcomes.flatMap failuresOf).filter (·.index = k) =
      (outcomes.filter (·.index = k)).flatMap failuresOf := by
  induction outcomes with
  | nil => rfl
  | cons outcome rest ih =>
    have uniform : (failuresOf outcome).filter (·.index = k) =
        if outcome.index = k then failuresOf outcome else [] := by
      split
      next here =>
        rw [List.filter_eq_self]
        intro failure member
        simp [index_of_mem_failuresOf member, here]
      next apart =>
        rw [List.filter_eq_nil_iff]
        intro failure member
        simp [index_of_mem_failuresOf member, apart]
    rw [List.flatMap_cons, List.filter_append, uniform, ih, List.filter_cons]
    by_cases here : outcome.index = k <;> simp [here]

theorem aggregate_error_eq (outcomes : List Outcome) :
    (aggregate outcomes).error =
      if outcomes.flatMap failuresOf = [] then none
      else some (BatchError.ofFailures (outcomes.flatMap failuresOf)) := by
  unfold aggregate
  simp only
  split
  next empty => rw [if_pos empty]
  next failures => rw [if_neg failures]

/-- The order of outcomes, of which each asset has one, does not show in the error. -/
theorem aggregate_error_perm {outcomes others : List Outcome} (same : outcomes.Perm others)
    (distinct : (outcomes.map (·.index)).Nodup) :
    (aggregate outcomes).error = (aggregate others).error := by
  have sorted : BatchError.ofFailures (outcomes.flatMap failuresOf) =
      BatchError.ofFailures (others.flatMap failuresOf) := by
    unfold BatchError.ofFailures
    congr 1
    refine mergeSort_key_eq BatchFailure.index (fun _ _ => decide_eq_true_iff) fun k => ?_
    rw [filter_flatMap_failuresOf, filter_flatMap_failuresOf,
      filter_key_eq_of_perm same distinct]
  have empty : outcomes.flatMap failuresOf = [] ↔ others.flatMap failuresOf = [] := by
    simp only [List.flatMap_eq_nil_iff, same.mem_iff]
  rw [aggregate_error_eq, aggregate_error_eq, sorted]
  simp only [empty]

end Pool

end PolicyReview
