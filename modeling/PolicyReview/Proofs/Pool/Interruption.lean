import PolicyReview.Proofs.Pool.Conservation
import PolicyReview.Proofs.Pool.Response

/-! Cancellation of batches. Whenever the token of a batch fires, each of its assets has one
outcome, which is that of a whole review or the cancellation of the asset; and an outcome without a
result reports its one error and no violation. -/

namespace PolicyReview

def BatchResponse.failuresAt (response : BatchResponse) (index : Nat) : List BatchFailure :=
  match response.error with
  | none => []
  | some error => error.failures.filter (·.index = index)

namespace Pool

variable {Artifact : Type} {engine : Engine Artifact}

def cancelledOutcome (index : Nat) (asset : Json) : Outcome :=
  ⟨index, nameOf asset, .error (.cancelled (nameOf asset))⟩

def wholeOutcome (engine : Engine Artifact) (index : Nat) (asset : Json) : Outcome :=
  (reviewOne engine.uncancelled Signal.quiet index asset).outcome

theorem reviewOne_eq_or_cancelled (engine : Engine Artifact) (signal : Signal) (index : Nat)
    (asset : Json) :
    (reviewOne engine signal index asset).outcome = wholeOutcome engine index asset ∨
      (reviewOne engine signal index asset).outcome = cancelledOutcome index asset := by
  by_cases stopped : signal 0 = true
  · right
    rw [reviewOne, if_pos stopped]
    rfl
  rw [reviewOne, if_neg stopped]
  obtain same | cancelled := engine.review_eq_or_cancelled
    (fun look => signal (look + 1)) asset
  · left
    simp only [same]
    rfl
  · right
    simp only [cancelled]
    rfl

theorem aggregate_failuresAt {outcomes : List Outcome}
    (distinct : (outcomes.map (·.index)).Nodup) {outcome : Outcome} (member : outcome ∈ outcomes) :
    (aggregate outcomes).failuresAt outcome.index = failuresOf outcome := by
  have own : (outcomes.flatMap failuresOf).filter (·.index = outcome.index) =
      failuresOf outcome := by
    rw [filter_flatMap_failuresOf, filter_index_eq distinct member, List.flatMap_singleton]
  rw [BatchResponse.failuresAt, aggregate_error_eq]
  by_cases none : outcomes.flatMap failuresOf = []
  · rw [if_pos none, ← own, none]
    rfl
  · rw [if_neg none]
    exact (filter_mergeSort_key BatchFailure.index (fun _ _ => decide_eq_true_iff) _ _).trans own

/-- The outcomes of a batch are one for each asset, whole or cancelled. The response has the
violations and the skipped results of the whole ones, and one error for each that failed. -/
structure AllOrNothing (engine : Engine Artifact) (assets : List Json) (state : BatchState) :
    Prop where
  once : (state.collected.map (·.index)).Perm (List.range assets.length)
  whole_or_cancelled : ∀ outcome ∈ state.collected, ∃ asset, assets[outcome.index]? = some asset ∧
    (outcome = wholeOutcome engine outcome.index asset ∨
      outcome = cancelledOutcome outcome.index asset)
  violations : state.response.violations = state.collected.flatMap violationsOf
  reviewed : ∀ outcome ∈ state.collected, ∀ result, outcome.result = .ok result →
    violationsOf outcome = result.toViolations ∧
    state.response.failuresAt outcome.index =
      result.skipped.map fun error => ⟨outcome.index, outcome.asset, error⟩
  failed : ∀ outcome ∈ state.collected, ∀ error, outcome.result = .error error →
    violationsOf outcome = [] ∧
    state.response.failuresAt outcome.index = [⟨outcome.index, outcome.asset, error⟩]

namespace System

variable {workers : Nat} {system : System} {batches : List (List Json)} {batch : Nat}
  {state : BatchState}

theorem Reachable.reviewed_any {allowed : Move → Prop}
    (reachable : Reachable engine workers allowed batches system) :
    ∀ state ∈ system.batches, Reviewed engine (fun _ => True) state := by
  induction reachable with
  | begin => simp [ofBatches, BatchState.ofAssets, Reviewed]
  | move _ _ step reviewed =>
    exact step_reviewed step (fun _ _ _ _ => trivial) reviewed

theorem Invariant.collected_once (valid : Invariant workers batches system)
    (here : system.batches[batch]? = some state) (finished : state.isFinished = true) :
    (state.collected.map (·.index)).Perm (List.range state.assets.length) := by
  have indices := valid.trail_perm batch state here
  rwa [valid.trail_of_finished here finished] at indices

theorem allOrNothing_of_finished {allowed : Move → Prop}
    (reachable : Reachable engine workers allowed batches system)
    (here : system.batches[batch]? = some state) (finished : state.isFinished = true) :
    AllOrNothing engine state.assets state := by
  have once := reachable.invariant.collected_once here finished
  have distinct := once.nodup_iff.2 List.nodup_range
  have response := response_eq reachable.invariant here finished
  refine ⟨once, fun outcome member => ?_, by rw [response]; rfl, ?_, ?_⟩
  · obtain ⟨asset, signal, there, -, same⟩ := reachable.reviewed_any state
      (List.mem_of_getElem? here) outcome (List.mem_append_left _ member)
    have either := reviewOne_eq_or_cancelled engine signal outcome.index asset
    exact ⟨asset, there, by rwa [← same] at either⟩
  · intro outcome member result passed
    rw [response, aggregate_failuresAt distinct member]
    simp [violationsOf, failuresOf, passed]
  · intro outcome member error failed
    rw [response, aggregate_failuresAt distinct member]
    simp [violationsOf, failuresOf, failed]

/-- Wherever tokens fire in a run, a last advancing move comes, after which all batches are
finished, and a finished batch is reported all or nothing for each asset. -/
theorem run_all_or_nothing (staffed : 0 < workers) (batches : List (List Json))
    (moves : List Move)
    (run : (ofBatches batches).run? engine workers moves = some system) :
    moves.countP Move.advances ≤ 5 * (batches.map List.length).sum ∧
    ((∀ state ∈ system.batches, state.isFinished = true) ∨
      ∃ move next, move.advances = true ∧ system.step? engine workers move = some next) ∧
    ∀ (batch : Nat) (assets : List Json), batches[batch]? = some assets →
      ∃ state, system.batches[batch]? = some state ∧
        (state.isFinished = true → AllOrNothing engine assets state) := by
  have reachable : Reachable engine workers (fun _ => True) batches system :=
    Reachable.begin.run? (fun _ _ => trivial) run
  refine ⟨run_advances_le run, finished_or_advances staffed reachable, ?_⟩
  intro batch assets asked
  obtain ⟨state, here, rfl⟩ := reachable.invariant.batch_of_request asked
  exact ⟨state, here, allOrNothing_of_finished reachable here⟩

def bucketNamed (name : String) : Json :=
  .object [("ancestry_path", .string "organizations/1"),
    ("asset_type", .string "storage.googleapis.com/Bucket"), ("name", .string name),
    ("resource", .object [])]

def strictEngine : Engine (List Scripted.Rule) :=
  let constraint : Constraint :=
    ⟨"c.yaml", "constraints.gatekeeper.sh/v1beta1", "K", { name := "c" }, {}⟩
  let rules : List Scripted.Rule := [⟨none, false, .results [⟨"open", .null⟩]⟩]
  { runtime := Scripted.runtime ⟨[], [("K", rules)]⟩
    table := ⟨[(.cloudAsset, { constraint, rule := ⟨[⟨[.anyDeep]⟩], []⟩ })]⟩
    artifacts := ⟨[((.cloudAsset, "K"), rules)]⟩ }

theorem run_all_or_nothing_midway :
    let assets := ["a", "b", "c"].map bucketNamed
    let moves : List Move := [.take 0, .enqueue 0, .take 0, .start, .enqueue 0, .start, .look 0,
      .look 0, .look 1, .fire 0, .take 0, .enqueue 0, .deliver 1, .start, .deliver 1, .collect 0,
      .deliver 0, .collect 0, .collect 0]
    let outcome : Nat → String → List Bool → Outcome := fun index name looks =>
      (reviewOne strictEngine (signal looks true) index (bucketNamed name)).outcome
    let state : BatchState := { assets, unsent := [], fired := true, collected :=
      [outcome 1 "b" [false], outcome 2 "c" [], outcome 0 "a" [false, false]] }
    0 < 2 ∧ (ofBatches [assets]).run? strictEngine 2 moves = some { batches := [state] } ∧
      state.collected.map (fun outcome =>
        ((violationsOf outcome).map (·.resourceName), failuresOf outcome)) =
          [([], [⟨1, "b", .cancelled "b"⟩]), ([], [⟨2, "c", .cancelled "c"⟩]), (["a"], [])] ∧
      AllOrNothing strictEngine assets state := by
  intro assets moves outcome state
  have run : (ofBatches [assets]).run? strictEngine 2 moves = some { batches := [state] } := by rfl
  refine ⟨by decide, run, rfl, ?_⟩
  obtain ⟨reached, here, reported⟩ :=
    (run_all_or_nothing (by decide : 0 < 2) [assets] moves run).2.2 0 assets rfl
  obtain rfl : state = reached := Option.some.inj here
  exact reported rfl

end System

end Pool

end PolicyReview
