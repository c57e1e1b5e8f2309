import PolicyReview.Proofs.Asset.Rules
import PolicyReview.Proofs.Engine.Review
import PolicyReview.Proofs.Pool.Completion
import PolicyReview.Proofs.Pool.Interruption
import PolicyReview.Proofs.Violation

/-! Attribution of failures. However the review of an asset ends badly, each failure that is
recorded for it has the index of the asset in its batch, and its name and the name in its error are
the one that the JSON of the asset gives. -/

namespace PolicyReview

/-- The name that the JSON of an asset gives: the string in its field, empty when it has none. -/
inductive Asset.Names (value : Json) : String → Prop where
  | given {name : String} (given : value.field? "name" = some (.string name)) : Names value name
  | unnamed (absent : ∀ name, value.field? "name" ≠ some (.string name)) : Names value ""

theorem Asset.names_textField (value : Json) : Names value (value.textField "name") := by
  by_cases given : ∃ name, value.field? "name" = some (.string name)
  · obtain ⟨name, given⟩ := given
    rw [Json.textField_of_string given]
    exact .given given
  · have unnamed : value.textField "name" = "" :=
      Json.textField_eq_empty.2 fun ⟨name, there, _⟩ => given ⟨name, there⟩
    rw [unnamed]
    exact .unnamed fun name there => given ⟨name, there⟩

/-- The failure is that of the asset at the index: it has this index, and it and its error have the
name that the JSON of the asset gives. -/
structure BatchFailure.IsOf (failure : BatchFailure) (index : Nat) (asset : Json) : Prop where
  index_eq : failure.index = index
  named : Asset.Names asset failure.asset
  assetName_eq : failure.error.assetName = failure.asset

/-! Errors of reviews. -/

structure Run.HasName {Artifact Result : Type} (run : Run Artifact Result)
    (skipped : Result → List ReviewError) (name : String) : Prop where
  failed : ∀ error, run.outcome = .error (.failed error) → error.assetName = name
  skipped : ∀ result, run.outcome = .ok result → ∀ error ∈ skipped result, error.assetName = name

theorem ConstraintViolation.assetName_of_ofRaw {asset : Asset} {bound : BoundConstraint}
    {raw : RawResult} {error : ReviewError} (refused : ofRaw asset bound raw = .error error) :
    error.assetName = asset.name := by
  obtain ⟨rule, _, rfl⟩ := ((ofRaw_enforces asset bound raw).refuses error).1 refused
  cases rule <;> rfl

theorem Findings.assetName_of_ofResults {asset : Asset} {bound : BoundConstraint}
    {raws : List RawResult} {error : ReviewError}
    (skipped : error ∈ (ofResults asset bound raws).skipped) : error.assetName = asset.name := by
  rw [ofResults_eq] at skipped
  obtain ⟨result, checked, found⟩ := List.mem_filterMap.1 skipped
  obtain ⟨raw, _, rfl⟩ := List.mem_map.1 checked
  cases refused : ConstraintViolation.ofRaw asset bound raw with
  | ok violation =>
    rw [refused] at found
    cases found
  | error other =>
    rw [refused] at found
    obtain rfl := Option.some.inj found
    exact ConstraintViolation.assetName_of_ofRaw refused

namespace Run

variable {Artifact : Type} {name : String}

theorem hasName_failed {Result : Type} {skipped : Result → List ReviewError} {error : ReviewError}
    (same : error.assetName = name) (fired : Bool) :
    HasName (failed error fired : Run Artifact Result) skipped name where
  failed other ended := by
    obtain rfl := Stop.failed.inj (Except.error.inj ended)
    exact same
  skipped result ended := by cases ended

theorem hasName_crashed {Result : Type} {skipped : Result → List ReviewError}
    (text : String) (calls : List (Call Artifact)) (fired : Bool) :
    HasName ⟨.error (.crashed text), calls, fired⟩ skipped name :=
  ⟨nofun, nofun⟩

theorem HasName.after {Result : Type} {run : Run Artifact Result}
    {skipped : Result → List ReviewError} (hasName : run.HasName skipped name)
    (call : Call Artifact) : (run.after call).HasName skipped name :=
  ⟨hasName.failed, hasName.skipped⟩

theorem HasName.map {Result Other : Type} {run : Run Artifact Result}
    {skipped : Result → List ReviewError} {skipped' : Other → List ReviewError}
    (hasName : run.HasName skipped name) (f : Result → Other)
    (added : ∀ result, ∀ error ∈ skipped' (f result), error ∉ skipped result →
      error.assetName = name) : (run.map f).HasName skipped' name where
  failed error ended := hasName.failed error (map_eq_error.1 ended)
  skipped other ended error member := by
    obtain ⟨result, first, rfl⟩ := map_eq_ok.1 ended
    by_cases before : error ∈ skipped result
    · exact hasName.skipped result first error before
    · exact added result error member before

end Run

namespace Engine

variable {Artifact : Type}

theorem evaluateFrom_hasName (engine : Engine Artifact) (signal : Signal) (asset : Asset)
    (target : Target) (review : Json) (look : Nat) (fired : Bool) (bounds : List BoundConstraint) :
    (engine.evaluateFrom signal asset target review look fired bounds).HasName Findings.skipped
      asset.name := by
  induction bounds generalizing look fired with
  | nil =>
    refine ⟨nofun, fun findings ended error member => ?_⟩
    obtain rfl := Except.ok.inj ended
    cases member
  | cons bound rest ih =>
    unfold evaluateFrom
    split
    · exact Run.hasName_failed rfl fired
    split
    · split
      · exact Run.hasName_failed rfl fired
      next artifact _ =>
        dsimp only
        generalize (fired || (engine.runtime.evaluate artifact
          (evaluationInput review bound.constraint)).cancels) = fired'
        apply Run.HasName.after
        split
        · exact Run.hasName_crashed _ [] fired'
        · exact Run.hasName_failed rfl fired'
        next raws _ =>
          refine (ih (look + 1) fired').map (Findings.ofResults asset bound raws).append ?_
          intro findings error member before
          rcases List.mem_append.1 member with here | there
          · exact Findings.assetName_of_ofResults here
          · exact absurd there before
    · exact ih (look + 1) fired

theorem review_hasName (engine : Engine Artifact) (signal : Signal) (input : Json) :
    (engine.review signal input).HasName ReviewResult.skipped (input.textField "name") := by
  unfold review
  cases read : Asset.ofJson input with
  | error error =>
    refine Run.hasName_failed ?_ false
    cases Asset.ofJson_error read <;> rfl
  | ok asset =>
    rw [← Asset.name_of_ofJson read]
    dsimp only
    split
    · exact Run.hasName_failed rfl false
    next target review _ =>
      exact (engine.evaluateFrom_hasName signal asset target review 0 false _).map _
        fun findings error member before => absurd member before

end Engine

namespace Pool

variable {Artifact : Type} {engine : Engine Artifact} {assets : List Json}
  {outcomes : List Outcome} {outcome : Outcome} {index : Nat} {asset : Json} {error : ReviewError}

/-- The errors that an asset of a batch can be reported with: those of a review of it, whatever its
token shows, and that of an asset of whose review nothing is known. -/
inductive Arises (engine : Engine Artifact) (index : Nat) (asset : Json) : ReviewError → Prop where
  | reviewed {error : ReviewError} (signal : Signal)
      (own : error ∈ (reviewOne engine signal index asset).outcome.errors) :
      Arises engine index asset error
  | lost : Arises engine index asset
      (.evaluatorFailure (nameOf asset) anyConstraint "review produced no outcome")

theorem reviewOne_asset (engine : Engine Artifact) (signal : Signal) (index : Nat) (asset : Json) :
    (reviewOne engine signal index asset).outcome.asset = nameOf asset := by
  unfold reviewOne
  split <;> rfl

theorem assetName_of_settle {run : Run Artifact ReviewResult} {name : String}
    (hasName : run.HasName ReviewResult.skipped name)
    (own : error ∈ Outcome.errors ⟨index, name, settle name run.outcome⟩) :
    error.assetName = name := by
  unfold Outcome.errors settle at own
  dsimp only at own
  cases ended : run.outcome with
  | ok result =>
    rw [ended] at own
    exact hasName.skipped result ended error own
  | error stop =>
    rw [ended] at own
    cases stop with
    | failed stopped =>
      obtain rfl := List.mem_singleton.1 own
      exact hasName.failed _ ended
    | crashed text =>
      obtain rfl := List.mem_singleton.1 own
      rfl

theorem Arises.assetName_eq (arises : Arises engine index asset error) :
    error.assetName = nameOf asset := by
  cases arises with
  | lost => rfl
  | reviewed signal own =>
    unfold reviewOne at own
    dsimp only at own
    split at own
    · obtain rfl := List.mem_singleton.1 own
      rfl
    have hasName := engine.review_hasName (fun look => signal (look + 1)) asset
    exact assetName_of_settle hasName own

theorem Arises.isOf (arises : Arises engine index asset error) :
    (⟨index, nameOf asset, error⟩ : BatchFailure).IsOf index asset :=
  ⟨rfl, Asset.names_textField asset, arises.assetName_eq⟩

def IsOutcome (engine : Engine Artifact) (assets : List Json) (outcome : Outcome) : Prop :=
  ∃ asset, assets[outcome.index]? = some asset ∧ outcome.asset = nameOf asset ∧
    ∀ error ∈ outcome.errors, Arises engine outcome.index asset error

theorem isOutcome_reviewOne (signal : Signal) (there : assets[index]? = some asset) :
    IsOutcome engine assets (reviewOne engine signal index asset).outcome := by
  refine ⟨asset, ?_, reviewOne_asset engine signal index asset, fun error own => ?_⟩
  · rwa [reviewOne_index]
  · rw [reviewOne_index]
    exact .reviewed signal own

theorem isOutcome_missing (member : outcome ∈ missingOutcomes assets outcomes) :
    IsOutcome engine assets outcome := by
  obtain ⟨asset, there, _, lost⟩ := mem_missingOutcomes.1 member
  refine ⟨asset, there, lost ▸ rfl, fun error own => ?_⟩
  rw [lost] at own
  obtain rfl := List.mem_singleton.1 own
  exact .lost

theorem isOutcome_reviewFrom (engine : Engine Artifact) (fired : Bool) (before rest : List Json) :
    ∀ outcome ∈ (reviewFrom engine fired before.length rest).outcomes,
      IsOutcome engine (before ++ rest) outcome := by
  induction rest generalizing fired before with
  | nil => nofun
  | cons asset rest ih =>
    intro outcome member
    rcases List.mem_cons.1 member with rfl | later
    · exact isOutcome_reviewOne _ (by simp)
    · have next := ih _ (before ++ [asset]) outcome (by simpa using later)
      rwa [List.append_assoc] at next

/-! Responses. -/

theorem mem_failures_aggregate {failure : BatchFailure} :
    failure ∈ (aggregate outcomes).failures ↔
      ∃ outcome ∈ outcomes, ∃ error ∈ outcome.errors, outcome.failure error = failure := by
  rw [failures_aggregate, List.mem_mergeSort, List.mem_flatMap]
  simp only [failuresOf_eq, List.mem_map]

/-- Each failure of the response is that of an asset of the batch, for an error of this asset. -/
def Attributed (engine : Engine Artifact) (assets : List Json) (response : BatchResponse) : Prop :=
  ∀ failure ∈ response.failures, ∃ index asset, assets[index]? = some asset ∧
    Arises engine index asset failure.error ∧ failure.IsOf index asset

theorem attributed_completed (known : ∀ outcome ∈ outcomes, IsOutcome engine assets outcome) :
    Attributed engine assets (aggregate (outcomes ++ missingOutcomes assets outcomes)) := by
  intro failure recorded
  obtain ⟨outcome, member, error, own, rfl⟩ := mem_failures_aggregate.1 recorded
  obtain ⟨asset, there, named, arises⟩ : IsOutcome engine assets outcome := by
    rcases List.mem_append.1 member with collected | missing
    · exact known outcome collected
    · exact isOutcome_missing missing
  refine ⟨outcome.index, asset, there, arises error own, ?_⟩
  rw [Outcome.failure, named]
  exact (arises error own).isOf

theorem attributed_reviewBatch (engine : Engine Artifact) (fired : Bool) (assets : List Json) :
    Attributed engine assets (reviewBatch engine fired assets).1 :=
  attributed_completed (isOutcome_reviewFrom engine fired [] assets)

namespace System

/-- Whatever the assets of batches are and however their reviews end, each error of an outcome that
was collected is recorded, and an error for each asset that has no outcome; and every failure that
is recorded has the index of an asset whose error it is, and the name of this asset, which is also
the name in the error. A worker that reviews a batch alone reports no other failures. -/
theorem run_failures_attributed {workers : Nat} {system : System} (engine : Engine Artifact)
    (batches : List (List Json)) (moves : List Move)
    (run : (ofBatches batches).run? engine workers moves = some system) :
    (∀ (batch : Nat) (assets : List Json), batches[batch]? = some assets →
      ∃ state, system.batches[batch]? = some state ∧
        (∀ outcome ∈ state.collected, ∀ error ∈ outcome.errors,
          outcome.failure error ∈ state.response.failures) ∧
        (∀ index < assets.length, index ∉ state.collected.map (·.index) →
          ∃ failure ∈ state.response.failures, failure.index = index) ∧
        Attributed engine assets state.response) ∧
    ∀ fired assets, Attributed engine assets (reviewBatch engine fired assets).1 := by
  refine ⟨fun batch assets asked => ?_, attributed_reviewBatch engine⟩
  have reachable : Reachable engine workers (fun _ => True) batches system :=
    Reachable.begin.run? (fun _ _ => trivial) run
  obtain ⟨state, here, rfl⟩ := reachable.invariant.batch_of_request asked
  refine ⟨state, here, fun outcome member error own => ?_, fun index inside unknown => ?_,
    attributed_completed fun outcome member => ?_⟩
  · exact mem_failures_aggregate.2 ⟨outcome, List.mem_append_left _ member, error, own, rfl⟩
  · have missing : lostOutcome index state.assets[index] ∈
        missingOutcomes state.assets state.collected :=
      mem_missingOutcomes.2 ⟨_, List.getElem?_eq_getElem inside, unknown, rfl⟩
    refine ⟨_, mem_failures_aggregate.2
      ⟨_, List.mem_append_right _ missing, _, List.mem_singleton_self _, rfl⟩, rfl⟩
  · obtain ⟨asset, signal, there, -, same⟩ := reachable.reviewed_any state
      (List.mem_of_getElem? here) outcome (List.mem_append_left _ member)
    rw [same]
    exact isOutcome_reviewOne signal there

def carelessEngine : Engine (List Scripted.Rule) :=
  let raws : List RawResult := [⟨"", .null⟩, ⟨"open", .object [("constraint", .null)]⟩]
  { strictEngine with artifacts := ⟨[((.cloudAsset, "K"), [⟨none, false, .results raws⟩])]⟩ }

theorem run_failures_attributed_lost :
    let third : Json := .object [("name", Json.int 3)]
    let assets := [.array [], bucketNamed "b", third, bucketNamed "d"]
    let moves : List Move := [.take 0, .enqueue 0, .take 0, .start, .enqueue 0, .start, .deliver 0,
      .deliver 0, .collect 0, .take 0, .collect 0, .fire 0, .enqueue 0, .start, .deliver 0,
      .collect 0]
    let outcome : Nat → Json → Bool → Outcome := fun index asset fired =>
      (reviewOne carelessEngine (Signal.constant fired) index asset).outcome
    let state : BatchState := { assets, unsent := [3], fired := true, collected :=
      [outcome 0 (.array []) false, outcome 1 (bucketNamed "b") false, outcome 2 third true] }
    (ofBatches [assets]).run? carelessEngine 2 moves = some { batches := [state] } ∧
      state.collected.map failuresOf = [
        [⟨0, "", .malformedAsset "" .notObject⟩],
        [⟨1, "b", .malformedResult "b" "K.c" .emptyMessage⟩,
          ⟨1, "b", .reservedKeyCollision "b" "K.c" "constraint"⟩],
        [⟨2, "", .cancelled ""⟩]] ∧
      (∃ failure ∈ state.response.failures, failure.index = 3) ∧
      Attributed carelessEngine assets state.response := by
  intro third assets moves outcome state
  have run : (ofBatches [assets]).run? carelessEngine 2 moves = some { batches := [state] } := by
    rfl
  obtain ⟨reached, here, _, recorded, attributed⟩ :=
    (run_failures_attributed carelessEngine [assets] moves run).1 0 assets rfl
  obtain rfl : state = reached := Option.some.inj here
  have unknown : 3 ∉ state.collected.map (·.index) := by simp [state, outcome]
  exact ⟨run, rfl, recorded 3 (by decide) unknown, attributed⟩

end System

end Pool

end PolicyReview
