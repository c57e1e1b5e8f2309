import PolicyReview.Proofs.Engine.Review

/-! Reviews whose token fires once, beforehand or while a bound constraint is evaluated. No
evaluation starts after that. The look before the next bound constraint ends the review, whether or
not that constraint applies; where none is left, the review ends as it would without the token. -/

namespace PolicyReview

variable {Artifact : Type}

def Call.fires (runtime : Runtime Artifact) (call : Call Artifact) : Bool :=
  (runtime.evaluate call.artifact call.input).cancels

/-- A runtime that compiles everything, and whose evaluations fire the token and find nothing. -/
def Runtime.firing : Runtime Unit where
  compile _ := .ok ()
  evaluate _ _ := { answer := .results [], cancels := true }

namespace Engine

variable {engine : Engine Artifact} {schemas : Schema.Compiler} {runtime : Runtime Artifact}
  {library : PolicyLibrary}
  {signal : Signal} {asset : Asset} {target : Target} {input review : Json} {look : Nat}
  {bound : BoundConstraint} {call : Call Artifact} {passed left : List BoundConstraint}

/-- The token fires once, when a review has passed some constraints: before the review, which has
passed none by then, or during the evaluation of the last of them. -/
inductive FiresOnce (engine : Engine Artifact) (signal : Signal) (target : Target) (review : Json)
    (ancestry : String) : List BoundConstraint → Prop
  | beforehand (shown : ∀ look, signal look = true) :
    FiresOnce engine signal target review ancestry []
  | during {earlier : List BoundConstraint} {bound : BoundConstraint} {call : Call Artifact}
    (unfired : ∀ look ≤ earlier.length, signal look = false)
    (reached : ∀ other ∈ engine.plan target review ancestry earlier,
      other.Answers engine.runtime ∧ other.fires engine.runtime = false)
    (evaluated : engine.plan target review ancestry [bound] = [call])
    (fires : call.fires engine.runtime = true ∨ ∀ look, earlier.length < look → signal look = true) :
    FiresOnce engine signal target review ancestry (earlier ++ [bound])

/-- How a run ends when the token has fired with some constraints left to look at: a call that gives
no results ends it with its own failure, and otherwise the token ends it if one is left. -/
structure Interrupted {Result : Type} (runtime : Runtime Artifact) (asset : Asset)
    (made : List (Call Artifact)) (left : List BoundConstraint) (run : Run Artifact Result) :
    Prop where
  calls : run.calls = made
  failure : ∀ call ∈ made, ∀ error,
    (runtime.evaluate call.artifact call.input).answer = .failure error →
    run.outcome = .error (.failed (.evaluatorFailure asset.name call.bound.constraint.qualifiedName
      error.message))
  crash : ∀ call ∈ made, ∀ text,
    (runtime.evaluate call.artifact call.input).answer = .crash text →
    run.outcome = .error (.crashed text)
  cancelled : (∀ call ∈ made, call.Answers runtime) → left ≠ [] →
    run.outcome = .error (.failed (.cancelled asset.name))
  completed : left = [] → run.outcome ≠ .error (.failed (.cancelled asset.name))

def preceded (runtime : Runtime Artifact) (asset : Asset) (made : List (Call Artifact))
    (run : Run Artifact Findings) : Run Artifact Findings where
  outcome := run.outcome.map (Findings.ofChecked (Call.checked runtime asset made)).append
  calls := made ++ run.calls
  fired := run.fired

theorem plan_append (engine : Engine Artifact) (target : Target) (review : Json) (ancestry : String)
    (first second : List BoundConstraint) :
    engine.plan target review ancestry (first ++ second) =
      engine.plan target review ancestry first ++ engine.plan target review ancestry second := by
  simp [plan]

theorem plan_of_applies {ancestry : String} {artifact : Artifact}
    (applies : bound.rule.applies ancestry = true)
    (found : engine.artifacts.find? target bound.constraint.kind = some artifact) :
    engine.plan target review ancestry [bound] =
      [⟨bound, artifact, evaluationInput review bound.constraint⟩] := by
  simp [plan, applies, found]

theorem plan_of_not_applies {ancestry : String} (skipped : ¬bound.rule.applies ancestry = true) :
    engine.plan target review ancestry [bound] = [] := by
  simp [plan, skipped]

theorem applies_of_plan {ancestry : String}
    (planned : engine.plan target review ancestry [bound] = [call]) :
    bound.rule.applies ancestry = true ∧ ∃ artifact,
      engine.artifacts.find? target bound.constraint.kind = some artifact ∧
      call = ⟨bound, artifact, evaluationInput review bound.constraint⟩ := by
  by_cases applies : bound.rule.applies ancestry = true
  · obtain ⟨_, found, _⟩ := mem_plan (planned ▸ List.mem_singleton_self call)
    cases held : engine.artifacts.find? target bound.constraint.kind with
    | none => simp [plan, applies, held] at planned
    | some artifact =>
      rw [plan_of_applies applies held] at planned
      exact ⟨applies, artifact, rfl, (List.singleton_inj.1 planned).symm⟩
  · rw [plan_of_not_applies applies] at planned
    cases planned

theorem evaluateFrom_of_fired {fired : Bool} (stopped : (fired || signal look) = true)
    (remain : left ≠ []) :
    engine.evaluateFrom signal asset target review look fired left =
      Run.failed (.cancelled asset.name) fired := by
  cases left with
  | nil => exact absurd rfl remain
  | cons bound rest => rw [evaluateFrom, if_pos stopped]

theorem evaluateFrom_of_not_applies (unfired : signal look = false)
    (skipped : ¬bound.rule.applies asset.ancestry = true) :
    engine.evaluateFrom signal asset target review look false (bound :: left) =
      engine.evaluateFrom signal asset target review (look + 1) false left := by
  rw [evaluateFrom, unfired, if_neg (by decide), if_neg skipped]

theorem evaluateFrom_of_applies {artifact : Artifact} (unfired : signal look = false)
    (applies : bound.rule.applies asset.ancestry = true)
    (found : engine.artifacts.find? target bound.constraint.kind = some artifact)
    (own : call = ⟨bound, artifact, evaluationInput review bound.constraint⟩) :
    engine.evaluateFrom signal asset target review look false (bound :: left) = Run.after call
      (match (engine.runtime.evaluate call.artifact call.input).answer with
      | .crash text => ⟨.error (.crashed text), [], call.fires engine.runtime⟩
      | .failure error => Run.failed (.evaluatorFailure asset.name bound.name error.message)
          (call.fires engine.runtime)
      | .results raws =>
        (engine.evaluateFrom signal asset target review (look + 1) (call.fires engine.runtime)
          left).map (Findings.ofResults asset bound raws).append) := by
  subst own
  rw [evaluateFrom, unfired, if_neg (by decide), if_pos applies]
  simp only [found, Bool.false_or]
  rfl

theorem preceded_nil (run : Run Artifact Findings) : preceded runtime asset [] run = run := by
  obtain ⟨outcome, made, fired⟩ := run
  cases outcome <;> rfl

theorem preceded_append (first second : List (Call Artifact)) (run : Run Artifact Findings) :
    preceded runtime asset (first ++ second) run =
      preceded runtime asset first (preceded runtime asset second run) := by
  obtain ⟨outcome, made, fired⟩ := run
  have checked : Call.checked runtime asset (first ++ second) =
      Call.checked runtime asset first ++ Call.checked runtime asset second := List.flatMap_append
  cases outcome with
  | error stop => simp [preceded, Except.map]
  | ok findings =>
    simp [preceded, Except.map, checked, ← Findings.append_ofChecked, Findings.append]

theorem preceded_singleton {raws : List RawResult}
    (answered : (runtime.evaluate call.artifact call.input).answer = .results raws)
    (run : Run Artifact Findings) :
    preceded runtime asset [call] run =
      Run.after call (run.map (Findings.ofResults asset call.bound raws).append) := by
  have checked : Call.checked runtime asset [call] =
      raws.map (ConstraintViolation.ofRaw asset call.bound) := by
    simp [Call.checked, Call.results, answered]
  rw [preceded, checked, ← Findings.ofResults_eq]
  rfl

theorem evaluateFrom_append (held : engine.Holds target passed)
    (unfired : ∀ place < passed.length, signal (look + place) = false)
    (reached : ∀ other ∈ engine.plan target review asset.ancestry passed,
      other.Answers engine.runtime ∧ other.fires engine.runtime = false) :
    engine.evaluateFrom signal asset target review look false (passed ++ left) =
      preceded engine.runtime asset (engine.plan target review asset.ancestry passed)
        (engine.evaluateFrom signal asset target review (look + passed.length) false left) := by
  induction passed generalizing look with
  | nil => exact (preceded_nil _).symm
  | cons bound rest ih =>
    have here : signal look = false := unfired 0 (Nat.succ_pos _)
    obtain ⟨artifact, found⟩ := held bound List.mem_cons_self
    have split := engine.plan_append target review asset.ancestry [bound] rest
    rw [List.singleton_append] at split
    rw [split] at reached ⊢
    have later := @ih (look + 1) (fun other inside => held other (List.mem_cons_of_mem bound inside))
      (fun place below => by
        rw [Nat.add_right_comm, Nat.add_assoc]
        exact unfired (place + 1) (Nat.succ_lt_succ below))
      (fun other inside => reached other (List.mem_append_right _ inside))
    rw [List.length_cons, ← Nat.add_assoc, Nat.add_right_comm, preceded_append, ← later,
      List.cons_append]
    by_cases applies : bound.rule.applies asset.ancestry = true
    · rw [plan_of_applies applies found] at reached ⊢
      obtain ⟨⟨raws, answered⟩, calm⟩ := reached _ (List.mem_append_left _ List.mem_cons_self)
      rw [evaluateFrom_of_applies here applies found rfl, answered, calm,
        preceded_singleton answered]
    · rw [plan_of_not_applies applies, preceded_nil, evaluateFrom_of_not_applies here applies]

theorem evaluateFrom_interrupted (unfired : signal look = false)
    (evaluated : engine.plan target review asset.ancestry [bound] = [call])
    (fires : call.fires engine.runtime = true ∨ signal (look + 1) = true) :
    Interrupted engine.runtime asset [call] left
      (engine.evaluateFrom signal asset target review look false (bound :: left)) := by
  obtain ⟨applies, artifact, found, own⟩ := applies_of_plan evaluated
  have name : bound.name = call.bound.constraint.qualifiedName := by rw [own]; rfl
  have stopped : (call.fires engine.runtime || signal (look + 1)) = true := by simpa using fires
  rw [evaluateFrom_of_applies unfired applies found own, name]
  cases answered : (engine.runtime.evaluate call.artifact call.input).answer with
  | crash text =>
    refine ⟨rfl, ?_, ?_, ?_, fun _ => by simp [Run.after]⟩ <;>
      simp [answered, Run.after, Call.Answers]
  | failure error =>
    refine ⟨rfl, ?_, ?_, ?_, fun _ => by simp [Run.after, Run.failed]⟩ <;>
      simp [answered, Run.after, Run.failed, Call.Answers]
  | results raws =>
    refine ⟨?_, by simp [answered], by simp [answered], fun _ remain => ?_, ?_⟩
    · cases left with
      | nil => rfl
      | cons next rest =>
        simp only [evaluateFrom_of_fired stopped (List.cons_ne_nil next rest)]
        rfl
    · simp only [evaluateFrom_of_fired stopped remain]
      rfl
    · rintro rfl
      simp [evaluateFrom, Run.after, Run.map, Except.map]

namespace Interrupted

variable {Result Other : Type} {made : List (Call Artifact)}

theorem map {run : Run Artifact Result} (interrupted : Interrupted runtime asset made left run)
    (f : Result → Other) : Interrupted runtime asset made left (run.map f) where
  calls := interrupted.calls
  failure call inside error failed :=
    map_outcome_eq_error.2 (interrupted.failure call inside error failed)
  crash call inside text crashed :=
    map_outcome_eq_error.2 (interrupted.crash call inside text crashed)
  cancelled answered remain := map_outcome_eq_error.2 (interrupted.cancelled answered remain)
  completed none := map_outcome_eq_error.not.2 (interrupted.completed none)

theorem preceded {run : Run Artifact Findings} {earlier : List (Call Artifact)}
    (interrupted : Interrupted runtime asset made left run)
    (answered : ∀ call ∈ earlier, call.Answers runtime) :
    Interrupted runtime asset (earlier ++ made) left (preceded runtime asset earlier run) := by
  have among : ∀ {call}, call ∈ earlier ++ made → ¬call.Answers runtime → call ∈ made :=
    fun inside fails => (List.mem_append.1 inside).resolve_left fun first => fails (answered _ first)
  have ends : ∀ stop, (Engine.preceded runtime asset earlier run).outcome = .error stop ↔
      run.outcome = .error stop := fun _ => @map_outcome_eq_error _ _ _ run _ _
  refine ⟨congrArg (earlier ++ ·) interrupted.calls, fun call inside error failed => ?_,
    fun call inside text crashed => ?_, fun all remain => ?_, fun none => ?_⟩
  · exact (ends _).2 (interrupted.failure call
      (among inside (by simp [Call.Answers, failed])) error failed)
  · exact (ends _).2 (interrupted.crash call
      (among inside (by simp [Call.Answers, crashed])) text crashed)
  · exact (ends _).2 (interrupted.cancelled
      (fun call inside => all call (List.mem_append_right _ inside)) remain)
  · exact (ends _).not.2 (interrupted.completed none)

end Interrupted

theorem evaluateFrom_firesOnce (held : engine.Holds target passed)
    (fired : FiresOnce engine signal target review asset.ancestry passed) :
    Interrupted engine.runtime asset (engine.plan target review asset.ancestry passed) left
      (engine.evaluateFrom signal asset target review 0 false (passed ++ left)) := by
  cases fired with
  | beforehand shown =>
    have stopped : (false || signal 0) = true := shown 0
    cases left with
    | nil => exact ⟨rfl, by simp [plan], by simp [plan], by simp, by simp [evaluateFrom]⟩
    | cons next rest =>
      rw [List.nil_append, evaluateFrom_of_fired stopped (List.cons_ne_nil next rest)]
      exact ⟨rfl, by simp [plan], by simp [plan], fun _ _ => rfl, by simp⟩
  | @during earlier bound call unfired reached evaluated fires =>
    rw [List.append_assoc, plan_append, evaluated, evaluateFrom_append
      (fun other inside => held other (List.mem_append_left _ inside))
      (fun place below => unfired _ (by omega)) reached]
    refine .preceded (evaluateFrom_interrupted ?_ evaluated ?_) fun other inside =>
      (reached other inside).1
    · exact unfired _ (by omega)
    · exact fires.imp id fun shown => shown _ (by omega)

/-- A review whose token fires once starts no evaluation after that. A bound constraint that comes
later has the review cancelled, whether or not it applies, unless the evaluation that fired the
token fails by itself; if none comes later, the review ends as it would without cancellation. -/
theorem review_firesOnce (built : Engine.build schemas runtime library = .ok engine)
    (read : Asset.ofJson input = .ok asset) (route : Target.route? asset = some (target, review))
    (split : engine.table.boundTo target = passed ++ left)
    (fired : FiresOnce engine signal target review asset.ancestry passed) :
    Interrupted runtime asset (engine.plan target review asset.ancestry passed) left
        (engine.review signal input) ∧
      (left = [] → (engine.review signal input).outcome =
        (engine.uncancelled.review Signal.quiet input).outcome) := by
  have held : engine.Holds target passed := fun bound inside =>
    holds_of_build built target bound (split ▸ List.mem_append_left left inside)
  have interrupted : Interrupted runtime asset (engine.plan target review asset.ancestry passed)
      left (engine.review signal input) := by
    rw [engine.review_of_route signal read route, split, ← runtime_of_build built]
    exact (evaluateFrom_firesOnce held fired).map _
  refine ⟨interrupted, fun none => ?_⟩
  refine (engine.review_eq_or_cancelled signal input).resolve_right fun cancelled => ?_
  rw [← Asset.name_of_ofJson read] at cancelled
  exact interrupted.completed none cancelled

theorem review_firesOnce_unmatched : ∃ engine first rest,
    Engine.build .draftFour Runtime.firing PolicyLibrary.probe = .ok engine ∧
    engine.table.boundTo .cloudAsset = [first] ++ [rest] ∧
    rest.rule.applies Asset.bucket.ancestry = false ∧
    FiresOnce engine Signal.quiet .cloudAsset Asset.bucket.envelope Asset.bucket.ancestry [first] ∧
    (engine.review Signal.quiet Asset.bucket.envelope).outcome =
      .error (.failed (.cancelled "b")) := by
  obtain ⟨engine, built⟩ := PolicyLibrary.probe_builds Runtime.firing fun _ => ⟨_, rfl⟩
  obtain ⟨constraints, parsed⟩ := boundTo_of_build built .cloudAsset
  have all : PolicyLibrary.probe.constraints.filter (PolicyLibrary.probe.binds .cloudAsset) =
      PolicyLibrary.probe.constraints := rfl
  rw [all] at constraints
  obtain ⟨first, _, bounds, -, others⟩ := List.map_eq_cons_iff.1 constraints
  obtain ⟨rest, rfl, -⟩ := List.map_eq_singleton_iff.1 others
  have verdicts : PolicyLibrary.probe.constraints.map (fun constraint =>
      (MatchRule.ofConstraint constraint).map (·.applies Asset.bucket.ancestry)) =
        [.ok true, .ok false] := rfl
  rw [← constraints, bounds] at verdicts
  simp only [List.map_cons, List.map_nil, parsed first (by simp [bounds]),
    parsed rest (by simp [bounds]), Except.map, List.cons.injEq, Except.ok.injEq, and_true]
    at verdicts
  obtain ⟨artifact, found⟩ := holds_of_build built .cloudAsset first (by simp [bounds])
  have fired : FiresOnce engine Signal.quiet .cloudAsset Asset.bucket.envelope
      Asset.bucket.ancestry [first] :=
    List.nil_append [first] ▸ .during (fun _ _ => rfl) (fun _ inside => by simp [plan] at inside)
      (plan_of_applies verdicts.1 found) (.inl (by rw [runtime_of_build built]; rfl))
  have read : Asset.ofJson Asset.bucket.envelope = .ok Asset.bucket := rfl
  have interrupted := (review_firesOnce built read rfl bounds fired).1
  exact ⟨engine, first, rest, built, bounds, verdicts.2, fired,
    interrupted.cancelled (fun _ _ => ⟨_, rfl⟩) (List.cons_ne_nil rest [])⟩

end Engine

end PolicyReview
