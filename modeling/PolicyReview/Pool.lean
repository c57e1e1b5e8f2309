import PolicyReview.Engine

/-! Review of batches. Each asset of a batch has one outcome, under its index in the request;
an asset whose review has not begun when the token fires is cancelled, and a crash is a
failure of its own asset only. A response lists the violations of whole assets in the
order of their outcomes, and the failures in the order of their indices. -/

namespace PolicyReview

structure Outcome where
  index : Nat
  asset : String
  result : Except ReviewError ReviewResult

structure Settled (Artifact : Type) where
  outcome : Outcome
  calls : List (Call Artifact)
  fired : Bool

structure BatchResponse where
  violations : List Violation
  error : Option BatchError
  deriving Repr

namespace Pool

variable {Artifact : Type}

def nameOf (asset : Json) : String := asset.textField "name"

def anyConstraint : String := "*"

def settle (name : String) (outcome : Except Stop ReviewResult) :
    Except ReviewError ReviewResult :=
  match outcome with
  | .ok result => .ok result
  | .error (.failed error) => .error error
  | .error (.crashed text) =>
    .error (.evaluatorFailure name anyConstraint ("review panicked: " ++ text))

/-- Reviews one asset of a batch. The first look at the token is before the review begins. -/
def reviewOne (engine : Engine Artifact) (signal : Signal) (index : Nat) (asset : Json) :
    Settled Artifact :=
  let name := nameOf asset
  if signal 0 then ⟨⟨index, name, .error (.cancelled name)⟩, [], false⟩
  else
    let run := engine.review (fun look => signal (look + 1)) asset
    ⟨⟨index, name, settle name run.outcome⟩, run.calls, run.fired⟩

structure BatchRun (Artifact : Type) where
  outcomes : List Outcome
  calls : List (Call Artifact)

/-- Reviews assets in order; the token stays fired once one of them has fired it. -/
def reviewFrom (engine : Engine Artifact) (fired : Bool) (index : Nat) :
    List Json → BatchRun Artifact
  | [] => ⟨[], []⟩
  | asset :: rest =>
    let first := reviewOne engine (Signal.constant fired) index asset
    let later := reviewFrom engine (fired || first.fired) (index + 1) rest
    ⟨first.outcome :: later.outcomes, first.calls ++ later.calls⟩

def missingOutcomes (assets : List Json) (outcomes : List Outcome) : List Outcome :=
  assets.zipIdx.filterMap fun (asset, index) =>
    if outcomes.any (·.index = index) then none
    else
      let name := nameOf asset
      some ⟨index, name,
        .error (.evaluatorFailure name anyConstraint "review produced no outcome")⟩

def violationsOf (outcome : Outcome) : List Violation :=
  match outcome.result with
  | .ok result => result.toViolations
  | .error _ => []

def failuresOf (outcome : Outcome) : List BatchFailure :=
  match outcome.result with
  | .ok result => result.skipped.map fun error => ⟨outcome.index, outcome.asset, error⟩
  | .error error => [⟨outcome.index, outcome.asset, error⟩]

/-- Folds outcomes, in the order in which they came, to a response. -/
def aggregate (outcomes : List Outcome) : BatchResponse where
  violations := outcomes.flatMap violationsOf
  error :=
    match outcomes.flatMap failuresOf with
    | [] => none
    | failures => some (BatchError.ofFailures failures)

/-- The response to a batch that one worker reviews in the order of the request. -/
def reviewBatch (engine : Engine Artifact) (fired : Bool) (assets : List Json) :
    BatchResponse × List (Call Artifact) :=
  let run := reviewFrom engine fired 0 assets
  (aggregate (run.outcomes ++ missingOutcomes assets run.outcomes), run.calls)

end Pool

end PolicyReview
