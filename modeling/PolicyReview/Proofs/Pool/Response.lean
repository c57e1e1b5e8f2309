import PolicyReview.Proofs.Engine.Cancellation
import PolicyReview.Proofs.Pool.Failures
import PolicyReview.Proofs.Pool.Outcome
import PolicyReview.Engine.Scripted

/-! The response of a batch. Without cancellation every run ends with all batches finished, and a
finished batch responds as if its assets had been reviewed one after another, except for the
order in which the violations of whole assets come. -/

namespace PolicyReview.Pool

variable {Artifact : Type} {engine : Engine Artifact}

/-- The violations that the review of an asset finds, none when the review fails. -/
def reviewViolations (engine : Engine Artifact) (asset : Json) : List Violation :=
  match (engine.review Signal.quiet asset).outcome with
  | .ok result => result.toViolations
  | .error _ => []

theorem violationsOf_reviewOne (index : Nat) (asset : Json) :
    violationsOf (reviewOne engine Signal.quiet index asset).outcome =
      reviewViolations engine asset := by
  change violationsOf ⟨index, nameOf asset,
    settle (nameOf asset) (engine.review Signal.quiet asset).outcome⟩ = _
  unfold violationsOf reviewViolations settle
  cases (engine.review Signal.quiet asset).outcome with
  | ok result => rfl
  | error stop => cases stop <;> rfl

theorem reviewOne_fired (never : engine.NeverCancels) (index : Nat) (asset : Json) :
    (reviewOne engine Signal.quiet index asset).fired = false :=
  Engine.review_fired never Signal.quiet asset

theorem reviewFrom_outcomes (never : engine.NeverCancels) (index : Nat) (assets : List Json) :
    (reviewFrom engine false index assets).outcomes = (assets.zipIdx index).map fun entry =>
      (reviewOne engine Signal.quiet entry.2 entry.1).outcome := by
  induction assets generalizing index with
  | nil => rfl
  | cons asset rest ih =>
    have still : (reviewOne engine (Signal.constant false) index asset).fired = false :=
      reviewOne_fired never index asset
    simp only [reviewFrom, still, Bool.or_false, ih (index + 1), List.zipIdx_cons, List.map_cons]
    rfl

theorem missingOutcomes_eq_nil {assets : List Json} {outcomes : List Outcome}
    (all : ∀ index < assets.length, ∃ outcome ∈ outcomes, outcome.index = index) :
    missingOutcomes assets outcomes = [] := by
  unfold missingOutcomes
  rw [List.filterMap_eq_nil_iff]
  rintro ⟨asset, index⟩ member
  have bound := (List.getElem?_eq_some_iff.1 (List.mem_zipIdx_iff_getElem?.1 member)).1
  obtain ⟨outcome, present, rfl⟩ := all index bound
  have seen : outcomes.any (·.index = outcome.index) = true :=
    List.any_eq_true.2 ⟨outcome, present, by simp⟩
  simp only [seen, if_true]

theorem mem_reviewFrom_iff (never : engine.NeverCancels) (assets : List Json) (outcome : Outcome) :
    outcome ∈ (reviewFrom engine false 0 assets).outcomes ↔ ∃ asset,
      assets[outcome.index]? = some asset ∧
      outcome = (reviewOne engine Signal.quiet outcome.index asset).outcome := by
  rw [reviewFrom_outcomes never, List.mem_map]
  constructor
  · rintro ⟨⟨asset, index⟩, member, rfl⟩
    exact ⟨asset, by simpa using List.mem_zipIdx_iff_getElem?.1 member, by simp⟩
  · rintro ⟨asset, here, same⟩
    exact ⟨(asset, outcome.index), List.mem_zipIdx_iff_getElem?.2 here, same.symm⟩

theorem reviewFrom_indices (never : engine.NeverCancels) (assets : List Json) :
    (reviewFrom engine false 0 assets).outcomes.map (·.index) = List.range assets.length := by
  rw [reviewFrom_outcomes never, List.map_map]
  simp [Function.comp_def, List.zipIdx_map_snd, List.range_eq_range']

namespace System

variable {workers : Nat} {system : System} {batches : List (List Json)} {batch : Nat}
  {state : BatchState}

theorem collected_perm (never : engine.NeverCancels) (valid : Invariant workers batches system)
    (reviewed : Reviewed engine (· = Signal.quiet) state)
    (here : system.batches[batch]? = some state) (finished : state.isFinished = true) :
    state.collected.Perm (reviewFrom engine false 0 state.assets).outcomes := by
  have indices := valid.trail_perm batch state here
  rw [valid.trail_of_finished here finished] at indices
  have distinct : (state.collected.map (·.index)).Nodup :=
    indices.nodup_iff.2 List.nodup_range
  have distinct' : ((reviewFrom engine false 0 state.assets).outcomes.map (·.index)).Nodup := by
    rw [reviewFrom_indices never]
    exact List.nodup_range
  have own : ∀ outcome ∈ state.collected, ∃ asset, state.assets[outcome.index]? = some asset ∧
      outcome = (reviewOne engine Signal.quiet outcome.index asset).outcome := by
    intro outcome member
    obtain ⟨asset, _, there, rfl, same⟩ := reviewed outcome (List.mem_append_left _ member)
    exact ⟨asset, there, same⟩
  rw [List.perm_ext_iff_of_nodup distinct.of_map distinct'.of_map]
  intro outcome
  rw [mem_reviewFrom_iff never]
  constructor
  · exact own outcome
  · rintro ⟨asset, there, same⟩
    have bound := (List.getElem?_eq_some_iff.1 there).1
    obtain ⟨other, member, sameIndex⟩ :=
      List.mem_map.1 (indices.mem_iff.2 (List.mem_range.2 bound))
    obtain ⟨asset', there', same'⟩ := own other member
    rw [sameIndex] at there' same'
    obtain rfl : asset' = asset := Option.some.inj (there'.symm.trans there)
    rwa [same, ← same']

theorem response_eq (valid : Invariant workers batches system)
    (here : system.batches[batch]? = some state) (finished : state.isFinished = true) :
    state.response = aggregate state.collected := by
  have indices := valid.trail_perm batch state here
  rw [valid.trail_of_finished here finished] at indices
  have complete : missingOutcomes state.assets state.collected = [] := by
    apply missingOutcomes_eq_nil
    intro index bound
    exact List.mem_map.1 (indices.mem_iff.2 (List.mem_range.2 bound))
  rw [BatchState.response, complete, List.append_nil]

theorem collected_violations (reviewed : Reviewed engine (· = Signal.quiet) state) :
    state.collected.flatMap violationsOf = (state.collected.map (·.index)).flatMap fun index =>
      state.assets[index]?.toList.flatMap (reviewViolations engine) := by
  rw [List.flatMap_map]
  apply List.flatMap_congr
  intro outcome member
  obtain ⟨asset, _, there, rfl, same⟩ := reviewed outcome (List.mem_append_left _ member)
  rw [there, same, violationsOf_reviewOne]
  simp

/-- A run in which no token fires has a last advancing move, after which all batches are finished. A
finished batch has one outcome for each of its assets, that of a review of the asset; its error
is that of reviews one after another, and its violations are those of whole assets, a single
worker taking these in the order of the request. -/
theorem run_response (never : engine.NeverCancels) (staffed : 0 < workers)
    (batches : List (List Json)) (moves : List Move) (calm : ∀ move ∈ moves, Calm move)
    (run : (ofBatches batches).run? engine workers moves = some system) :
    moves.countP Move.advances ≤ 5 * (batches.map List.length).sum ∧
    ((∀ state ∈ system.batches, state.isFinished = true) ∨
      ∃ move next, move.advances = true ∧ system.step? engine workers move = some next) ∧
    ∀ (batch : Nat) (assets : List Json) (state : BatchState), batches[batch]? = some assets →
      system.batches[batch]? = some state → state.isFinished = true →
      (state.collected.map (·.index)).Perm (List.range assets.length) ∧
      (∀ outcome ∈ state.collected, ∃ asset, assets[outcome.index]? = some asset ∧
        outcome = (reviewOne engine Signal.quiet outcome.index asset).outcome) ∧
      state.response.error = (aggregate (reviewFrom engine false 0 assets).outcomes).error ∧
      ∃ order : List Nat, order.Perm (List.range assets.length) ∧
        (workers = 1 → order = List.range assets.length) ∧
        state.response.violations = order.flatMap fun index =>
          assets[index]?.toList.flatMap (reviewViolations engine) := by
  have reachable : Reachable engine workers Calm batches system :=
    Reachable.begin.run? calm run
  have valid := reachable.invariant
  refine ⟨?_, ?_, ?_⟩
  · have total := run_work run
    rw [begin_work] at total
    omega
  · by_cases unfinished : ∃ state ∈ system.batches, state.isFinished = false
    · exact .inr (exists_advancing_move staffed valid unfinished)
    · left
      intro state member
      by_contra open_
      exact unfinished ⟨state, member, by simpa using open_⟩
  intro batch assets state asked here finished
  obtain rfl : state.assets = assets := by
    rw [← valid.assets_eq, List.getElem?_map, here] at asked
    simpa using asked
  have reviewed := reachable.reviewed state (List.mem_of_getElem? here)
  have same := collected_perm never valid reviewed here finished
  have indices := valid.trail_perm batch state here
  rw [valid.trail_of_finished here finished] at indices
  refine ⟨indices, ?_, ?_, state.collected.map (·.index), indices, ?_, ?_⟩
  · intro outcome member
    exact (mem_reviewFrom_iff never state.assets outcome).1 (same.mem_iff.1 member)
  · rw [response_eq valid here finished]
    exact aggregate_error_perm same (indices.nodup_iff.2 List.nodup_range)
  · intro single
    have ordered := valid.trail_eq (by omega) batch state here
    rwa [valid.trail_of_finished here finished] at ordered
  · rw [response_eq valid here finished]
    exact collected_violations reviewed

theorem run_response_overtaken :
    let asset : Json := .object [("ancestry_path", .string "organizations/1"),
      ("asset_type", .string "storage.googleapis.com/Bucket"), ("name", .string "b"),
      ("resource", .object [])]
    let constraint : Constraint :=
      ⟨"c.yaml", "constraints.gatekeeper.sh/v1beta1", "K", { name := "c" }, {}⟩
    let rules : List Scripted.Rule := [⟨none, false, .crash "overflow"⟩]
    let engine : Engine (List Scripted.Rule) :=
      { runtime := Scripted.runtime ⟨[], [("K", rules)]⟩
        table := ⟨[(.cloudAsset, { constraint, rule := ⟨[⟨[.anyDeep]⟩], []⟩ })]⟩
        artifacts := ⟨[((.cloudAsset, "K"), rules)]⟩ }
    let moves : List Move := [.take 0, .enqueue 0, .take 0, .start, .enqueue 0, .start,
      .deliver 1, .deliver 0, .collect 0, .collect 0]
    ∃ system state, (ofBatches [[asset, .null]]).run? engine 2 moves = some system ∧
      system.batches[0]? = some state ∧ state.isFinished = true ∧
      state.collected.map (·.index) = [1, 0] ∧
      state.response.error =
        (aggregate (reviewFrom engine false 0 [asset, .null]).outcomes).error := by
  intro asset constraint rules engine moves
  have never : engine.NeverCancels := by
    intro target kind artifact input held
    have only : artifact = rules := by
      simp only [ArtifactTable.find?, engine, List.lookup_cons, List.lookup_nil] at held
      split at held
      · exact (Option.some.inj held).symm
      · cases held
    subst only
    rfl
  refine ⟨_, _, rfl, rfl, rfl, rfl, ?_⟩
  have result := run_response never (by decide : 0 < 2) [[asset, .null]] moves
    (by simp [moves, Calm]) rfl
  exact (result.2.2 0 _ _ rfl rfl rfl).2.2.1

end System

end PolicyReview.Pool
