import PolicyReview.Engine.Compilation

/-! The review engine. It is built from a library when nothing at all is wrong with it. A review
offers the asset to the targets, and evaluates, in binding order, the constraints of the
first target that takes it whose match rules apply. The cancellation token is looked at
before each bound constraint; a review that it stops reports nothing but that. -/

namespace PolicyReview

structure Engine (Artifact : Type) where
  runtime : Runtime Artifact
  table : BindingTable
  artifacts : ArtifactTable Artifact

structure Call (Artifact : Type) where
  bound : BoundConstraint
  artifact : Artifact
  input : Json

structure ReviewResult where
  assetName : String
  original : Json
  reviewed : Json
  violations : List ConstraintViolation
  skipped : List ReviewError
  deriving Repr

def ReviewResult.toViolations (result : ReviewResult) : List Violation :=
  result.violations.map (·.toViolation result.assetName)

inductive Stop where
  | failed (error : ReviewError)
  | crashed (text : String)
  deriving Repr

structure Run (Artifact : Type) (Result : Type) where
  outcome : Except Stop Result
  calls : List (Call Artifact)
  fired : Bool

namespace Run

variable {Artifact Result : Type}

def failed (error : ReviewError) (fired : Bool := false) : Run Artifact Result :=
  ⟨.error (.failed error), [], fired⟩

def after (call : Call Artifact) (run : Run Artifact Result) : Run Artifact Result :=
  { run with calls := call :: run.calls }

def map {Other : Type} (f : Result → Other) (run : Run Artifact Result) : Run Artifact Other :=
  ⟨run.outcome.map f, run.calls, run.fired⟩

end Run

/-- What the evaluation of constraints found: violations, and results that were skipped. -/
structure Findings where
  violations : List ConstraintViolation := []
  skipped : List ReviewError := []
  deriving Repr

namespace Findings

def add (findings : Findings) (result : Except ReviewError ConstraintViolation) : Findings :=
  match result with
  | .ok violation => { findings with violations := findings.violations ++ [violation] }
  | .error error => { findings with skipped := findings.skipped ++ [error] }

def ofResults (asset : Asset) (bound : BoundConstraint) (raws : List RawResult) : Findings :=
  raws.foldl (fun findings raw => findings.add (ConstraintViolation.ofRaw asset bound raw)) {}

def append (first second : Findings) : Findings :=
  ⟨first.violations ++ second.violations, first.skipped ++ second.skipped⟩

end Findings

/-- What the token shows from outside at each look of a review, counted from zero. -/
abbrev Signal := Nat → Bool

def Signal.quiet : Signal := fun _ => false

def Signal.constant (fired : Bool) : Signal := fun _ => fired

namespace Engine

variable {Artifact : Type}

/-- The units that a library compiles to, whether or not it is free of errors. -/
def units (schemas : Schema.Compiler) (library : PolicyLibrary) : List CompileUnit :=
  let (registry, errors) := Registry.ofTemplates schemas library.templates
  let bound := Binding.bindAll registry errors library.constraints
  (Compilation.units registry library.modules bound.table).map (·.2)

/-- The engine of a library, or every error of its registration, binding and compilation. -/
def build (schemas : Schema.Compiler) (runtime : Runtime Artifact) (library : PolicyLibrary) :
    Except PolicyErrors (Engine Artifact) :=
  let (registry, errors) := Registry.ofTemplates schemas library.templates
  let bound := Binding.bindAll registry errors library.constraints
  let (artifacts, compileErrors) :=
    Compilation.compileAll runtime (Compilation.units registry library.modules bound.table)
  PolicyErrors.orValue (bound.errors ++ compileErrors)
    { runtime, table := bound.table, artifacts }

def constraintNames (engine : Engine Artifact) (target : String) : List String :=
  match Target.ofName? target with
  | some target => (engine.table.boundTo target).map BoundConstraint.name
  | none => []

def evaluationInput (review : Json) (constraint : Constraint) : Json :=
  .object [
    ("constraint", constraint.echo),
    ("parameters", constraint.spec.parameters),
    ("review", review)]

/-- Evaluates bound constraints in order. `look` counts the looks at the token so far, and
`fired` says whether an earlier evaluation fired it. -/
def evaluateFrom (engine : Engine Artifact) (signal : Signal) (asset : Asset) (target : Target)
    (review : Json) (look : Nat) (fired : Bool) : List BoundConstraint → Run Artifact Findings
  | [] => ⟨.ok {}, [], fired⟩
  | bound :: rest =>
    if fired || signal look then Run.failed (.cancelled asset.name) fired
    else if bound.rule.applies asset.ancestry then
      match engine.artifacts.find? target bound.constraint.kind with
      | none => Run.failed (.evaluatorFailure asset.name bound.name
          "no compiled template for constraint kind") fired
      | some artifact =>
        let input := evaluationInput review bound.constraint
        let evaluation := engine.runtime.evaluate artifact input
        let fired := fired || evaluation.cancels
        Run.after { bound, artifact, input } <|
          match evaluation.answer with
          | .crash text => ⟨.error (.crashed text), [], fired⟩
          | .failure error =>
            Run.failed (.evaluatorFailure asset.name bound.name error.message) fired
          | .results raws =>
            (engine.evaluateFrom signal asset target review (look + 1) fired rest).map
              (Findings.ofResults asset bound raws).append
    else engine.evaluateFrom signal asset target review (look + 1) fired rest

/-- Reviews one asset. -/
def review (engine : Engine Artifact) (signal : Signal) (input : Json) :
    Run Artifact ReviewResult :=
  match Asset.ofJson input with
  | .error error => Run.failed error
  | .ok asset =>
    match Target.route? asset with
    | none => Run.failed (.unroutableAsset asset.name asset.assetType)
    | some (target, review) =>
      (engine.evaluateFrom signal asset target review 0 false (engine.table.boundTo target)).map
        fun findings =>
          { assetName := asset.name
            original := input
            reviewed := review
            violations := findings.violations
            skipped := findings.skipped }

end Engine

end PolicyReview
