import Mathlib.Data.List.Nodup
import Mathlib.Data.List.Perm.Basic
import Mathlib.Order.Lattice

/-! Sorting by a key. The sort is stable, so that it depends on nothing but the items of each key in
their own order; items of distinct keys come out in one order, however they come in. -/

namespace PolicyReview

section Keys

variable {α κ : Type} [LinearOrder κ] {key : α → κ} {first second : List α}

theorem eq_of_filter_key_eq (ascending : first.Pairwise fun a b => key a ≤ key b)
    (ascending' : second.Pairwise fun a b => key a ≤ key b)
    (same : ∀ k, first.filter (key · = k) = second.filter (key · = k)) : first = second := by
  induction first generalizing second with
  | nil =>
    cases second with
    | nil => rfl
    | cons b rest => simpa using same (key b)
  | cons a rest ih =>
    have member : a ∈ second := by
      have inside : a ∈ second.filter (key · = key a) := by
        rw [← same (key a)]
        simp
      exact (List.mem_filter.1 inside).1
    cases second with
    | nil => cases member
    | cons b others =>
      have member' : b ∈ a :: rest := by
        have inside : b ∈ (a :: rest).filter (key · = key b) := by
          rw [same (key b)]
          simp
        exact (List.mem_filter.1 inside).1
      have keys : key a = key b := by
        have below : key b ≤ key a := by
          obtain rfl | later := List.mem_cons.1 member
          · exact le_rfl
          · exact List.rel_of_pairwise_cons ascending' later
        have above : key a ≤ key b := by
          obtain rfl | later := List.mem_cons.1 member'
          · exact le_rfl
          · exact List.rel_of_pairwise_cons ascending later
        exact le_antisymm above below
      have heads := same (key a)
      simp only [List.filter_cons, keys, decide_true, if_true, List.cons.injEq] at heads
      obtain ⟨rfl, _⟩ := heads
      have tails : rest = others := by
        refine ih ascending.of_cons ascending'.of_cons fun k => ?_
        have both := same k
        simp only [List.filter_cons] at both
        split at both
        · exact (List.cons.inj both).2
        · exact both
      rw [tails]

/-- Items of distinct keys agree on each key with any rearrangement of them. -/
theorem filter_key_eq_of_perm (same : first.Perm second) (distinct : (first.map key).Nodup)
    (k : κ) : first.filter (key · = k) = second.filter (key · = k) := by
  have inside := same.filter (key · = k)
  have apart : ((first.filter (key · = k)).map key).Nodup :=
    (List.filter_sublist.map key).nodup distinct
  have constant : (first.filter (key · = k)).map key =
      List.replicate (first.filter (key · = k)).length k := by
    rw [List.eq_replicate_iff]
    refine ⟨List.length_map _, ?_⟩
    intro other member
    obtain ⟨item, inner, rfl⟩ := List.mem_map.1 member
    simpa using (List.mem_filter.1 inner).2
  rw [constant, List.nodup_replicate] at apart
  match found : first.filter (key · = k) with
  | [] => exact (List.nil_perm.1 (found ▸ inside)).symm
  | [item] => exact (List.perm_singleton.1 (found ▸ inside).symm).symm
  | first :: second :: rest => simp [found] at apart

/-! The sort. `le` compares keys. -/

variable (key) {le : α → α → Bool} (ordered : ∀ a b, le a b = true ↔ key a ≤ key b)

include ordered

theorem le_trans_of_key (a b c : α) (below : le a b = true) (above : le b c = true) :
    le a c = true :=
  (ordered a c).2 (((ordered a b).1 below).trans ((ordered b c).1 above))

theorem le_total_of_key (a b : α) : (le a b || le b a) = true := by
  rw [Bool.or_eq_true, ordered, ordered]
  exact le_total _ _

theorem pairwise_mergeSort_key (items : List α) :
    (items.mergeSort le).Pairwise fun a b => key a ≤ key b := by
  have sorted : (items.mergeSort le).Pairwise fun a b => le a b = true :=
    List.pairwise_mergeSort (le_trans_of_key key ordered) (le_total_of_key key ordered) items
  exact sorted.imp (ordered _ _).1

theorem filter_mergeSort_key (items : List α) (k : κ) :
    (items.mergeSort le).filter (key · = k) = items.filter (key · = k) := by
  have level : (items.filter (key · = k)).Pairwise fun a b => le a b = true := by
    rw [List.pairwise_iff_forall_sublist]
    intro a b pair
    have first := List.mem_filter.1 (pair.subset (by simp : a ∈ [a, b]))
    have second := List.mem_filter.1 (pair.subset (by simp : b ∈ [a, b]))
    rw [decide_eq_true_eq] at first second
    rw [ordered, first.2, second.2]
  have kept : (items.filter (key · = k)).Sublist (items.mergeSort le) :=
    List.sublist_mergeSort (le_trans_of_key key ordered) (le_total_of_key key ordered) level
      List.filter_sublist
  have inside := kept.filter (key · = k)
  rw [List.filter_filter] at inside
  simp only [Bool.and_self] at inside
  refine (inside.eq_of_length ?_).symm
  exact (((List.mergeSort_perm items _).filter _).length_eq).symm

theorem mergeSort_key_eq
    (same : ∀ k, first.filter (key · = k) = second.filter (key · = k)) :
    first.mergeSort le = second.mergeSort le := by
  refine eq_of_filter_key_eq (pairwise_mergeSort_key key ordered first)
    (pairwise_mergeSort_key key ordered second) ?_
  intro k
  rw [filter_mergeSort_key key ordered, filter_mergeSort_key key ordered, same]

theorem mergeSort_eq_of_perm (same : first.Perm second) (distinct : (first.map key).Nodup) :
    first.mergeSort le = second.mergeSort le :=
  mergeSort_key_eq key ordered (filter_key_eq_of_perm same distinct)

end Keys

end PolicyReview
