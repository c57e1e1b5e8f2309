import PolicyReview.Proofs.Pool.Failures
import Mathlib.Data.List.Range

/-! Completion of batches. A batch of which not every outcome was collected is completed by a
failure for each index that has none, so that every index has one outcome. In whatever order
outcomes come, they give one list of failures, and the violations of each asset in one block. -/

namespace PolicyReview

/-- The failures that a response reports, none without an error. -/
def BatchResponse.failures (response : BatchResponse) : List BatchFailure :=
  match response.error with
  | none => []
  | some error => error.failures

/-- The errors of an asset: that of its review, or those of the results that were skipped. -/
def Outcome.errors (outcome : Outcome) : List ReviewError :=
  match outcome.result with
  | .ok result => result.skipped
  | .error error => [error]

def Outcome.failure (outcome : Outcome) (error : ReviewError) : BatchFailure :=
  ⟨outcome.index, outcome.asset, error⟩

namespace Pool

variable {assets : List Json} {outcomes others : List Outcome} {outcome : Outcome}

/-! Missing outcomes. -/

def lostOutcome (index : Nat) (asset : Json) : Outcome :=
  ⟨index, nameOf asset,
    .error (.evaluatorFailure (nameOf asset) anyConstraint "review produced no outcome")⟩

theorem missingOutcomes_eq (assets : List Json) (outcomes : List Outcome) :
    missingOutcomes assets outcomes =
      (assets.zipIdx.filter fun entry => entry.2 ∉ outcomes.map (·.index)).map fun entry =>
        lostOutcome entry.2 entry.1 := by
  unfold missingOutcomes
  rw [← List.filterMap_eq_map, ← List.filterMap_eq_filter, List.filterMap_filterMap]
  apply List.filterMap_congr
  rintro ⟨asset, index⟩ -
  have seen : outcomes.any (·.index = index) = true ↔ index ∈ outcomes.map (·.index) := by
    simp
  by_cases known : index ∈ outcomes.map (·.index)
  · simp only [seen.2 known, if_true, known, not_true_eq_false, decide_false, Option.guard]
    rfl
  · simp only [mt seen.1 known, known, not_false_eq_true, decide_true, Option.guard]
    rfl

theorem mem_missingOutcomes : outcome ∈ missingOutcomes assets outcomes ↔
    ∃ asset, assets[outcome.index]? = some asset ∧ outcome.index ∉ outcomes.map (·.index) ∧
      outcome = lostOutcome outcome.index asset := by
  rw [missingOutcomes_eq, List.mem_map]
  constructor
  · rintro ⟨⟨asset, index⟩, member, rfl⟩
    obtain ⟨there, unknown⟩ := List.mem_filter.1 member
    exact ⟨asset, List.mem_zipIdx_iff_getElem?.1 there, of_decide_eq_true unknown, rfl⟩
  · rintro ⟨asset, there, unknown, same⟩
    refine ⟨(asset, outcome.index), List.mem_filter.2 ⟨?_, decide_eq_true unknown⟩, same.symm⟩
    exact List.mem_zipIdx_iff_getElem?.2 there

theorem missingOutcomes_ascending (assets : List Json) (outcomes : List Outcome) :
    (missingOutcomes assets outcomes).Pairwise (·.index < ·.index) := by
  rw [missingOutcomes_eq, List.pairwise_map]
  apply List.Pairwise.filter
  have indices : (assets.zipIdx.map Prod.snd).Pairwise (· < ·) := by
    rw [List.zipIdx_map_snd]
    exact List.pairwise_lt_range'
  exact List.pairwise_map.1 indices

theorem missingOutcomes_perm (same : others.Perm outcomes) :
    missingOutcomes assets others = missingOutcomes assets outcomes := by
  rw [missingOutcomes_eq, missingOutcomes_eq]
  simp only [(same.map (·.index)).mem_iff]

theorem completed_indices (distinct : (outcomes.map (·.index)).Nodup)
    (bounded : ∀ outcome ∈ outcomes, outcome.index < assets.length) :
    ((outcomes ++ missingOutcomes assets outcomes).map (·.index)).Perm
      (List.range assets.length) := by
  have added : ((missingOutcomes assets outcomes).map (·.index)).Nodup :=
    List.pairwise_map.2 ((missingOutcomes_ascending assets outcomes).imp Nat.ne_of_lt)
  have apart : ∀ index ∈ outcomes.map (·.index),
      ∀ other ∈ (missingOutcomes assets outcomes).map (·.index), index ≠ other := by
    rintro index known other member rfl
    obtain ⟨lost, inside, rfl⟩ := List.mem_map.1 member
    obtain ⟨_, _, unknown, _⟩ := mem_missingOutcomes.1 inside
    exact unknown known
  have whole : ((outcomes ++ missingOutcomes assets outcomes).map (·.index)).Nodup := by
    rw [List.map_append]
    exact List.nodup_append.2 ⟨distinct, added, apart⟩
  rw [List.perm_ext_iff_of_nodup whole List.nodup_range]
  intro index
  rw [List.mem_range, List.map_append, List.mem_append]
  constructor
  · rintro (known | member)
    · obtain ⟨outcome, inside, rfl⟩ := List.mem_map.1 known
      exact bounded outcome inside
    · obtain ⟨lost, inside, rfl⟩ := List.mem_map.1 member
      obtain ⟨asset, there, _⟩ := mem_missingOutcomes.1 inside
      exact (List.getElem?_eq_some_iff.1 there).1
  · intro inside
    by_cases known : index ∈ outcomes.map (·.index)
    · exact .inl known
    · refine .inr (List.mem_map.2 ⟨lostOutcome index assets[index], ?_, rfl⟩)
      exact mem_missingOutcomes.2 ⟨_, List.getElem?_eq_getElem inside, known, rfl⟩

/-! Failures. -/

theorem failuresOf_eq (outcome : Outcome) : failuresOf outcome =
    outcome.errors.map outcome.failure := by
  unfold failuresOf Outcome.errors
  cases outcome.result <;> rfl

theorem failures_aggregate (outcomes : List Outcome) : (aggregate outcomes).failures =
    (outcomes.flatMap failuresOf).mergeSort fun a b => a.index ≤ b.index := by
  rw [BatchResponse.failures, aggregate_error_eq]
  split
  next empty =>
    split at empty
    next none => rw [none, List.mergeSort_nil]
    next => cases empty
  next error found =>
    split at found
    next => cases found
    next => exact Option.some.inj found ▸ rfl

theorem error_eq_none : (aggregate outcomes).error = none ↔
    ∀ outcome ∈ outcomes, ∃ result, outcome.result = .ok result ∧ result.skipped = [] := by
  have clean : (aggregate outcomes).error = none ↔ ∀ outcome ∈ outcomes, outcome.errors = [] := by
    rw [aggregate_error_eq, ite_eq_left_iff, List.flatMap_eq_nil_iff]
    simp only [failuresOf_eq, List.map_eq_nil_iff, reduceCtorEq, imp_false, not_not]
  rw [clean]
  refine forall₂_congr fun outcome _ => ?_
  unfold Outcome.errors
  cases outcome.result <;> simp

theorem failures_aggregate_eq {sorted : List Outcome} (same : sorted.Perm outcomes)
    (ascending : sorted.Pairwise (·.index < ·.index)) :
    (aggregate outcomes).failures = sorted.flatMap failuresOf := by
  have distinct : (sorted.map (·.index)).Nodup :=
    List.pairwise_map.2 (ascending.imp Nat.ne_of_lt)
  have blocks : (sorted.flatMap failuresOf).Pairwise fun a b => a.index ≤ b.index := by
    refine List.pairwise_flatMap.2 ⟨fun outcome _ => ?_, ascending.imp ?_⟩
    · rw [failuresOf_eq]
      exact List.pairwise_map.2 (List.pairwise_of_forall fun _ _ => Nat.le_refl _)
    · intro first second below failure member later member'
      rw [index_of_mem_failuresOf member, index_of_mem_failuresOf member']
      exact Nat.le_of_lt below
  rw [failures_aggregate]
  refine eq_of_filter_key_eq
    (pairwise_mergeSort_key BatchFailure.index (fun _ _ => decide_eq_true_iff) _) blocks fun k => ?_
  rw [filter_mergeSort_key BatchFailure.index (fun _ _ => decide_eq_true_iff),
    filter_flatMap_failuresOf, filter_flatMap_failuresOf, filter_key_eq_of_perm same distinct]

/-! Violations. -/

def violationsAt (outcomes : List Outcome) (index : Nat) : List Violation :=
  (outcomes.filter (·.index = index)).flatMap violationsOf

theorem violationsAt_of_mem (distinct : (outcomes.map (·.index)).Nodup)
    (member : outcome ∈ outcomes) :
    violationsAt outcomes outcome.index = violationsOf outcome := by
  rw [violationsAt, filter_index_eq distinct member, List.flatMap_singleton]

theorem violations_aggregate_eq (same : others.Perm outcomes)
    (distinct : (outcomes.map (·.index)).Nodup) :
    (aggregate others).violations = (others.map (·.index)).flatMap (violationsAt outcomes) := by
  rw [List.flatMap_map]
  apply List.flatMap_congr
  intro outcome member
  exact (violationsAt_of_mem distinct (same.subset member)).symm

theorem exists_sorted {count : Nat} (indices : (outcomes.map (·.index)).Perm (List.range count)) :
    ∃ sorted : List Outcome, sorted.Perm outcomes ∧ sorted.map (·.index) = List.range count := by
  refine ⟨outcomes.mergeSort fun a b => a.index ≤ b.index, List.mergeSort_perm _ _, ?_⟩
  have sorted : (outcomes.mergeSort fun a b => a.index ≤ b.index).Pairwise fun a b =>
      a.index ≤ b.index :=
    pairwise_mergeSort_key Outcome.index (fun _ _ => decide_eq_true_iff) outcomes
  have same := ((List.mergeSort_perm outcomes fun a b => a.index ≤ b.index).map (·.index)).trans
    indices
  exact same.eq_of_pairwise (fun _ _ _ _ => Nat.le_antisymm) (List.pairwise_map.2 sorted)
    List.pairwise_le_range

/-- Outcomes of some of the assets of a batch, of each at most one, are completed by a failure for
each index that has none, in ascending order. The failures of the whole are those of the outcomes
in the order of their indices, each outcome's own in their order; none is reported when every
review has a result and skipped nothing. The order in which outcomes come shows in nothing but the
order of the blocks of violations, one for each index. -/
theorem aggregate_completed (distinct : (outcomes.map (·.index)).Nodup)
    (bounded : ∀ outcome ∈ outcomes, outcome.index < assets.length) :
    let missing := missingOutcomes assets outcomes
    let completed := outcomes ++ missing
    (completed.map (·.index)).Perm (List.range assets.length) ∧
    missing.Pairwise (·.index < ·.index) ∧
    (∀ outcome ∈ missing, ∃ asset detail, assets[outcome.index]? = some asset ∧
      outcome.asset = nameOf asset ∧
      outcome.result = .error (.evaluatorFailure outcome.asset "*" detail)) ∧
    (∀ others, others.Perm outcomes → missingOutcomes assets others = missing) ∧
    ((aggregate completed).error = none ↔ ∀ outcome ∈ completed, ∃ result,
      outcome.result = .ok result ∧ result.skipped = []) ∧
    ∃ (sorted : List Outcome) (block : Nat → List Violation), sorted.Perm completed ∧
      sorted.map (·.index) = List.range assets.length ∧
      (∀ outcome ∈ completed, ∀ result, outcome.result = .ok result →
        block outcome.index = result.toViolations) ∧
      (∀ outcome ∈ completed, ∀ error, outcome.result = .error error →
        block outcome.index = []) ∧
      ∀ others, others.Perm completed →
        (aggregate others).error = (aggregate completed).error ∧
        (aggregate others).failures =
          (sorted.flatMap fun outcome => outcome.errors.map outcome.failure) ∧
        (aggregate others).violations = (others.map (·.index)).flatMap block := by
  intro missing completed
  have indices : (completed.map (·.index)).Perm (List.range assets.length) :=
    completed_indices distinct bounded
  have once : (completed.map (·.index)).Nodup := indices.nodup_iff.2 List.nodup_range
  have own : ∀ outcome ∈ completed,
      violationsAt completed outcome.index = violationsOf outcome := fun outcome member =>
    violationsAt_of_mem once member
  obtain ⟨sorted, same, ascending⟩ := exists_sorted indices
  refine ⟨indices, missingOutcomes_ascending assets outcomes, fun outcome member => ?_,
    fun others => missingOutcomes_perm, error_eq_none, sorted, violationsAt completed, same,
    ascending, fun outcome member result passed => ?_, fun outcome member error failed => ?_,
    fun others again => ⟨?_, ?_, violations_aggregate_eq again once⟩⟩
  · obtain ⟨asset, there, _, rest⟩ := mem_missingOutcomes.1 member
    rw [rest]
    exact ⟨asset, _, there, rfl, rfl⟩
  · rw [own outcome member, violationsOf, passed]
  · rw [own outcome member, violationsOf, failed]
  · exact (aggregate_error_perm again.symm once).symm
  · have increasing : sorted.Pairwise (·.index < ·.index) :=
      List.pairwise_map.1 (ascending ▸ List.pairwise_lt_range)
    rw [failures_aggregate_eq (same.trans again.symm) increasing]
    exact List.flatMap_congr fun outcome _ => failuresOf_eq outcome

theorem aggregate_completed_lost :
    let assets : List Json :=
      [.null, .object [("name", .string "b")], .object [("name", .string "c")]]
    let reviewed : Outcome := ⟨2, "c", .ok ⟨"c", assets[2], assets[2], [],
      [.malformedResult "c" "K.c" .emptyMessage, .reservedKeyCollision "c" "K.c" "constraint"]⟩⟩
    let refused : Outcome := ⟨0, "", .error (.malformedAsset "" .notObject)⟩
    let lost : Outcome := lostOutcome 1 (.object [("name", .string "b")])
    ([reviewed, refused].map (·.index)).Nodup ∧
    (∀ outcome ∈ [reviewed, refused], outcome.index < assets.length) ∧
    missingOutcomes assets [reviewed, refused] = [lost] ∧
    (aggregate [reviewed, refused, lost]).failures.map (fun failure =>
      (failure.index, failure.error)) = [(0, .malformedAsset "" .notObject),
        (1, .evaluatorFailure "b" "*" "review produced no outcome"),
        (2, .malformedResult "c" "K.c" .emptyMessage),
        (2, .reservedKeyCollision "c" "K.c" "constraint")] ∧
    (aggregate [lost, refused, reviewed]).error = (aggregate [reviewed, refused, lost]).error := by
  intro assets reviewed refused lost
  have distinct : ([reviewed, refused].map (·.index)).Nodup := by decide
  have bounded : ∀ outcome ∈ [reviewed, refused], outcome.index < assets.length := by
    simp [reviewed, refused, assets]
  obtain ⟨_, _, _, _, _, _, _, _, _, _, _, any⟩ := aggregate_completed distinct bounded
  have inOrder : [refused, lost, reviewed].Perm [reviewed, refused, lost] :=
    List.perm_append_singleton reviewed [refused, lost]
  refine ⟨distinct, bounded, rfl, ?_, (any _ (List.reverse_perm [reviewed, refused, lost])).1⟩
  rw [failures_aggregate_eq inOrder (by simp [refused, lost, reviewed, lostOutcome])]
  rfl

end Pool

end PolicyReview
