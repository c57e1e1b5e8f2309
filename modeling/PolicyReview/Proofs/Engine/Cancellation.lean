import PolicyReview.Engine
import PolicyReview.Proofs.Asset

/-! Reviews and the cancellation token. The token is fired from outside, or by an evaluation of an
artifact; an engine none of whose evaluations fires it leaves the token as it was. A review that
the token stops has no result, and any other ends as it would without cancellation. -/

namespace PolicyReview

theorem Run.map_eq_or_stopped {Artifact Result Other : Type} {run whole : Run Artifact Result}
    {stop : Stop} (f : Result → Other)
    (either : run.outcome = whole.outcome ∨ run.outcome = .error stop) :
    (run.map f).outcome = (whole.map f).outcome ∨ (run.map f).outcome = .error stop := by
  obtain same | stopped := either
  · exact .inl (by rw [Run.map, Run.map, same])
  · exact .inr (by rw [Run.map, stopped]; rfl)

namespace Engine

variable {Artifact : Type} {engine : Engine Artifact}

/-- No evaluation of an artifact that the engine holds fires the token. -/
def NeverCancels (engine : Engine Artifact) : Prop :=
  ∀ target kind artifact input, engine.artifacts.find? target kind = some artifact →
    (engine.runtime.evaluate artifact input).cancels = false

theorem evaluateFrom_fired (never : engine.NeverCancels) (signal : Signal) (asset : Asset)
    (target : Target) (review : Json) (look : Nat) (bounds : List BoundConstraint) :
    (engine.evaluateFrom signal asset target review look false bounds).fired = false := by
  induction bounds generalizing look with
  | nil => rfl
  | cons bound rest ih =>
    unfold evaluateFrom
    split
    · rfl
    split
    · split
      · rfl
      next artifact held =>
        have still := never target bound.constraint.kind artifact
          (evaluationInput review bound.constraint) held
        simp only [still, Bool.or_false, Run.after]
        split
        · rfl
        · rfl
        · exact ih (look + 1)
    · exact ih (look + 1)

theorem review_fired (never : engine.NeverCancels) (signal : Signal) (input : Json) :
    (engine.review signal input).fired = false := by
  unfold review
  split
  · rfl
  split
  · rfl
  · exact evaluateFrom_fired never signal _ _ _ 0 _

/-- The engine whose evaluations answer the same, and none of which fires the token. -/
def uncancelled (engine : Engine Artifact) : Engine Artifact where
  runtime := { engine.runtime with
    evaluate := fun artifact input => { answer := (engine.runtime.evaluate artifact input).answer } }
  table := engine.table
  artifacts := engine.artifacts

@[simp] theorem uncancelled_artifacts : engine.uncancelled.artifacts = engine.artifacts := rfl

@[simp] theorem uncancelled_evaluate (artifact : Artifact) (input : Json) :
    engine.uncancelled.runtime.evaluate artifact input =
      { answer := (engine.runtime.evaluate artifact input).answer } := rfl

theorem evaluateFrom_eq_or_cancelled (signal : Signal) (asset : Asset) (target : Target)
    (review : Json) (look : Nat) (fired : Bool) (bounds : List BoundConstraint) :
    (engine.evaluateFrom signal asset target review look fired bounds).outcome =
        (engine.uncancelled.evaluateFrom Signal.quiet asset target review look false
          bounds).outcome ∨
      (engine.evaluateFrom signal asset target review look fired bounds).outcome =
        .error (.failed (.cancelled asset.name)) := by
  induction bounds generalizing look fired with
  | nil => exact .inl rfl
  | cons bound rest ih =>
    unfold evaluateFrom
    by_cases stopped : (fired || signal look) = true
    · rw [if_pos stopped]
      exact .inr rfl
    rw [if_neg stopped]
    simp only [Signal.quiet, Bool.or_self, Bool.false_eq_true, if_false]
    by_cases applies : bound.rule.applies asset.ancestry = true
    · simp only [applies, if_true, uncancelled_artifacts]
      cases held : engine.artifacts.find? target bound.constraint.kind with
      | none => exact .inl rfl
      | some artifact =>
        simp only [Run.after, uncancelled_evaluate]
        cases answered : (engine.runtime.evaluate artifact
            (evaluationInput review bound.constraint)).answer with
        | crash text => exact .inl rfl
        | failure error => exact .inl rfl
        | results raws => exact Run.map_eq_or_stopped _ (ih (look + 1) _)
    · simp only [applies]
      exact ih (look + 1) fired

theorem review_eq_or_cancelled (engine : Engine Artifact) (signal : Signal) (input : Json) :
    (engine.review signal input).outcome =
        (engine.uncancelled.review Signal.quiet input).outcome ∨
      (engine.review signal input).outcome =
        .error (.failed (.cancelled (input.textField "name"))) := by
  unfold review
  cases read : Asset.ofJson input with
  | error error => exact .inl rfl
  | ok asset =>
    dsimp only
    cases route : Target.route? asset with
    | none => exact .inl rfl
    | some routed =>
      rw [← Asset.name_of_ofJson read]
      exact Run.map_eq_or_stopped _ (evaluateFrom_eq_or_cancelled signal asset _ _ 0 false _)

end Engine

end PolicyReview
