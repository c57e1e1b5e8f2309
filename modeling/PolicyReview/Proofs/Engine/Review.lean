import PolicyReview.Proofs.Engine.Cancellation
import PolicyReview.Proofs.Engine.Completeness

/-! Reviews with a token that is never fired. The constraints that apply to an asset plan one call
each; a review makes these calls one after another up to the first that gives no results, and
what it reports is every result of its calls, checked. -/

namespace PolicyReview

variable {Artifact : Type}

def Call.Answers (runtime : Runtime Artifact) (call : Call Artifact) : Prop :=
  ∃ raws, (runtime.evaluate call.artifact call.input).answer = .results raws

/-- The results that a call gives, none when it fails. -/
def Call.results (runtime : Runtime Artifact) (call : Call Artifact) : List RawResult :=
  match (runtime.evaluate call.artifact call.input).answer with
  | .results raws => raws
  | _ => []

def Call.checked (runtime : Runtime Artifact) (asset : Asset) (calls : List (Call Artifact)) :
    List (Except ReviewError ConstraintViolation) :=
  calls.flatMap fun call => (call.results runtime).map (ConstraintViolation.ofRaw asset call.bound)

namespace Findings

def errorOf (result : Except ReviewError ConstraintViolation) : Option ReviewError :=
  match result with
  | .ok _ => none
  | .error error => some error

def ofChecked (checked : List (Except ReviewError ConstraintViolation)) : Findings :=
  ⟨checked.filterMap Except.toOption, checked.filterMap errorOf⟩

theorem add_eq (findings : Findings) (result : Except ReviewError ConstraintViolation) :
    findings.add result = findings.append (ofChecked [result]) := by
  cases result <;> simp [add, append, ofChecked, errorOf, Except.toOption]

theorem append_ofChecked (first second : List (Except ReviewError ConstraintViolation)) :
    (ofChecked first).append (ofChecked second) = ofChecked (first ++ second) := by
  simp [append, ofChecked]

theorem ofResults_eq (asset : Asset) (bound : BoundConstraint) (raws : List RawResult) :
    ofResults asset bound raws = ofChecked (raws.map (ConstraintViolation.ofRaw asset bound)) := by
  suffices more : ∀ checked, raws.foldl (fun findings raw =>
      findings.add (ConstraintViolation.ofRaw asset bound raw)) (ofChecked checked) =
        ofChecked (checked ++ raws.map (ConstraintViolation.ofRaw asset bound)) from more []
  induction raws with
  | nil => simp
  | cons raw rest ih =>
    intro checked
    rw [List.foldl_cons, add_eq, append_ofChecked, ih]
    simp

end Findings

def Runtime.steady (raws : List RawResult) : Runtime Unit where
  compile _ := .ok ()
  evaluate _ _ := { answer := .results raws }

def Asset.bucket : Asset :=
  ⟨"b", "storage.googleapis.com/Bucket", "organizations/1/folders/2", .resource, .object []⟩

theorem ConstraintViolation.toViolation_ofRaw {asset : Asset} {bound : BoundConstraint}
    {raw : RawResult} {violation : ConstraintViolation}
    (kept : ofRaw asset bound raw = .ok violation) :
    violation.toViolation asset.name =
      { constraintName := bound.name
        resourceName := asset.name
        message := raw.message
        metadata := violation.metadata
        severity := bound.constraint.severity
        constraintConfig := bound.constraint.echo } := by
  unfold ofRaw at kept
  dsimp only at kept
  split at kept
  · cases kept
  split at kept
  · split at kept
    · cases kept
    · obtain rfl := Except.ok.inj kept
      rfl
  · cases kept

namespace Engine

variable {engine : Engine Artifact} {schemas : Schema.Compiler} {runtime : Runtime Artifact}
  {library : PolicyLibrary}

/-- The calls are one for each constraint of a list that some selecting glob and no deselecting
glob lets apply, each with an artifact and an input of its own constraint. -/
structure Planned (schemas : Schema.Compiler) (runtime : Runtime Artifact)
    (library : PolicyLibrary) (target : Target) (review : Json) (ancestry : String)
    (bounds : List BoundConstraint) (calls : List (Call Artifact)) : Prop where
  bound : calls.map (·.bound) = bounds.filter fun bound =>
    bound.rule.target.any (·.matchesPath ancestry) &&
      !bound.rule.exclude.any (·.matchesPath ancestry)
  input : ∀ call ∈ calls, call.input = .object [
    ("constraint", call.bound.constraint.echo),
    ("parameters", call.bound.constraint.spec.parameters),
    ("review", review)]
  artifact : ∀ call ∈ calls, ∃ unit ∈ Engine.units schemas library,
    unit.template = call.bound.constraint.kind ∧ unit.target = target.name ∧
      runtime.compile unit = .ok call.artifact

/-- The run makes the calls in order. The first that fails ends it with the call's constraint, the
first that crashes with the crash; when all give results, these are what the run gives. -/
structure Follows (runtime : Runtime Artifact) (asset : Asset) (input review : Json)
    (calls : List (Call Artifact)) (run : Run Artifact ReviewResult) : Prop where
  failure : ∀ before call after error, calls = before ++ call :: after →
    (∀ other ∈ before, other.Answers runtime) →
    (runtime.evaluate call.artifact call.input).answer = .failure error →
    run.calls = before ++ [call] ∧ run.outcome =
      .error (.failed (.evaluatorFailure asset.name call.bound.constraint.qualifiedName
        error.message))
  crash : ∀ before call after text, calls = before ++ call :: after →
    (∀ other ∈ before, other.Answers runtime) →
    (runtime.evaluate call.artifact call.input).answer = .crash text →
    run.calls = before ++ [call] ∧ run.outcome = .error (.crashed text)
  results : (∀ call ∈ calls, call.Answers runtime) → run.calls = calls ∧ run.outcome =
    .ok {
      assetName := asset.name
      original := input
      reviewed := review
      violations := (Call.checked runtime asset calls).filterMap Except.toOption
      skipped := (Call.checked runtime asset calls).filterMap Findings.errorOf }
  reported : ∀ call ∈ calls, ∀ raw ∈ call.results runtime, ∀ violation,
    ConstraintViolation.ofRaw asset call.bound raw = .ok violation →
    violation.toViolation asset.name =
      { constraintName := call.bound.constraint.qualifiedName
        resourceName := asset.name
        message := raw.message
        metadata := violation.metadata
        severity := call.bound.constraint.severity
        constraintConfig := call.bound.constraint.echo }

/-- The calls for the constraints of a list that apply, each with its own input. -/
def plan (engine : Engine Artifact) (target : Target) (review : Json) (ancestry : String)
    (bounds : List BoundConstraint) : List (Call Artifact) :=
  (bounds.filter (·.rule.applies ancestry)).filterMap fun bound =>
    (engine.artifacts.find? target bound.constraint.kind).map fun artifact =>
      { bound, artifact, input := evaluationInput review bound.constraint }

def follow (runtime : Runtime Artifact) (asset : Asset) :
    List (Call Artifact) → Run Artifact Findings
  | [] => ⟨.ok {}, [], false⟩
  | call :: rest => Run.after call <|
    match (runtime.evaluate call.artifact call.input).answer with
    | .crash text => ⟨.error (.crashed text), [], false⟩
    | .failure error => Run.failed (.evaluatorFailure asset.name call.bound.name error.message)
    | .results raws =>
      (follow runtime asset rest).map (Findings.ofResults asset call.bound raws).append

theorem evaluateFrom_fired_of_fired (signal : Signal) (asset : Asset) (target : Target)
    (review : Json) (look : Nat) (bounds : List BoundConstraint) :
    (engine.evaluateFrom signal asset target review look true bounds).fired = true := by
  cases bounds <;> rfl

theorem evaluateFrom_eq_follow (asset : Asset) (target : Target) (review : Json) (look : Nat)
    {bounds : List BoundConstraint} (held : engine.Holds target bounds)
    (uncancelled : (engine.evaluateFrom Signal.quiet asset target review look false bounds).fired =
      false) :
    engine.evaluateFrom Signal.quiet asset target review look false bounds =
      follow engine.runtime asset (engine.plan target review asset.ancestry bounds) := by
  induction bounds generalizing look with
  | nil => rfl
  | cons bound rest ih =>
    obtain ⟨artifact, found⟩ := held bound (by simp)
    have later := fun look => ih look fun other member => held other (by simp [member])
    unfold evaluateFrom at uncancelled ⊢
    by_cases applies : bound.rule.applies asset.ancestry = true
    · have planned : engine.plan target review asset.ancestry (bound :: rest) =
          ⟨bound, artifact, evaluationInput review bound.constraint⟩ ::
            engine.plan target review asset.ancestry rest := by
        simp [plan, applies, found]
      rw [planned, follow]
      simp only [Signal.quiet, Bool.or_self, Bool.false_eq_true, if_false, applies, if_true, found,
        Bool.false_or] at uncancelled ⊢
      have calm : (engine.runtime.evaluate artifact
          (evaluationInput review bound.constraint)).cancels = false := by
        rw [← Bool.not_eq_true]
        intro fires
        simp only [fires, Run.after] at uncancelled
        split at uncancelled
        · cases uncancelled
        · cases uncancelled
        · rw [Run.map, evaluateFrom_fired_of_fired] at uncancelled
          cases uncancelled
      rw [calm] at uncancelled ⊢
      cases answered : (engine.runtime.evaluate artifact
          (evaluationInput review bound.constraint)).answer with
      | crash text => rfl
      | failure error => rfl
      | results raws =>
        simp only [answered] at uncancelled ⊢
        rw [later (look + 1) uncancelled]
    · have planned : engine.plan target review asset.ancestry (bound :: rest) =
          engine.plan target review asset.ancestry rest := by
        simp [plan, applies]
      rw [planned]
      simp only [Signal.quiet, Bool.or_self, Bool.false_eq_true, if_false, applies] at uncancelled ⊢
      exact later (look + 1) uncancelled

theorem follow_append (asset : Asset) {calls : List (Call Artifact)}
    (answered : ∀ call ∈ calls, call.Answers runtime)
    (rest : List (Call Artifact)) :
    (follow runtime asset (calls ++ rest)).outcome = (follow runtime asset rest).outcome.map
        (Findings.ofChecked (Call.checked runtime asset calls)).append ∧
      (follow runtime asset (calls ++ rest)).calls =
        calls ++ (follow runtime asset rest).calls := by
  induction calls with
  | nil =>
    refine ⟨?_, rfl⟩
    rw [List.nil_append]
    cases (follow runtime asset rest).outcome <;> rfl
  | cons call others ih =>
    obtain ⟨raws, here⟩ := answered call (by simp)
    obtain ⟨outcome, calls⟩ := ih fun other member => answered other (by simp [member])
    have checked : Call.checked runtime asset (call :: others) =
        raws.map (ConstraintViolation.ofRaw asset call.bound) ++
          Call.checked runtime asset others := by
      simp [Call.checked, Call.results, here]
    rw [List.cons_append, follow, here]
    refine ⟨?_, congrArg (call :: ·) calls⟩
    simp only [Run.after, Run.map, outcome, checked, Findings.ofResults_eq,
      ← Findings.append_ofChecked]
    cases (follow runtime asset rest).outcome with
    | error stop => rfl
    | ok findings => simp [Except.map, Findings.append]

theorem review_of_route (engine : Engine Artifact) (signal : Signal) {input review : Json}
    {asset : Asset} {target : Target} (read : Asset.ofJson input = .ok asset)
    (route : Target.route? asset = some (target, review)) :
    engine.review signal input = (engine.evaluateFrom signal asset target review 0 false
      (engine.table.boundTo target)).map fun findings =>
        { assetName := asset.name, original := input, reviewed := review
          violations := findings.violations, skipped := findings.skipped } := by
  unfold Engine.review
  simp only [read, route]

theorem route?_of_first {asset : Asset} {earlier later : List Target} {target : Target}
    {review : Json} (offered : Target.all = earlier ++ target :: later)
    (refused : ∀ other ∈ earlier, other.review? asset = none)
    (taken : target.review? asset = some review) :
    Target.route? asset = some (target, review) :=
  List.findSome?_eq_some_iff.2 ⟨earlier, target, later, offered, by simp [taken],
    fun other member => by simp [refused other member]⟩

theorem plan_bound {target : Target} {review : Json} {ancestry : String}
    {bounds : List BoundConstraint} (held : engine.Holds target bounds) :
    (engine.plan target review ancestry bounds).map (·.bound) =
      bounds.filter (·.rule.applies ancestry) := by
  unfold plan
  induction bounds with
  | nil => rfl
  | cons bound rest ih =>
    obtain ⟨artifact, found⟩ := held bound (by simp)
    have later := ih fun other member => held other (by simp [member])
    by_cases applies : bound.rule.applies ancestry = true
    · simp [applies, found, later]
    · simp [applies, later]

theorem mem_plan {target : Target} {review : Json} {ancestry : String}
    {bounds : List BoundConstraint} {call : Call Artifact}
    (member : call ∈ engine.plan target review ancestry bounds) : call.bound ∈ bounds ∧
      engine.artifacts.find? target call.bound.constraint.kind = some call.artifact ∧
      call.input = evaluationInput review call.bound.constraint := by
  obtain ⟨bound, inside, found⟩ := List.mem_filterMap.1 member
  obtain ⟨artifact, held, rfl⟩ := Option.map_eq_some_iff.1 found
  exact ⟨(List.mem_filter.1 inside).1, held, rfl⟩

theorem runtime_of_build (built : Engine.build schemas runtime library = .ok engine) :
    engine.runtime = runtime := by
  obtain ⟨_, rfl⟩ := PolicyLibrary.build_eq_ok.1 built
  rfl

theorem planned_of_build (built : Engine.build schemas runtime library = .ok engine)
    (target : Target) (review : Json) (ancestry : String) :
    Planned schemas runtime library target review ancestry (engine.table.boundTo target)
      (engine.plan target review ancestry (engine.table.boundTo target)) where
  bound := plan_bound (holds_of_build built target)
  input call member := (mem_plan member).2.2
  artifact call member := by
    obtain ⟨inside, found, _⟩ := mem_plan member
    obtain ⟨unit, place, kind, name, _, artifact, compiled, held⟩ := artifact_of_build built inside
    obtain rfl : artifact = call.artifact := Option.some.inj (held.symm.trans found)
    exact ⟨unit, place, kind, name, compiled⟩

theorem follows_of_eq {run : Run Artifact ReviewResult} {asset : Asset} {input review : Json}
    {calls : List (Call Artifact)} (same : run = (follow runtime asset calls).map fun findings =>
      { assetName := asset.name, original := input, reviewed := review
        violations := findings.violations, skipped := findings.skipped }) :
    Follows runtime asset input review calls run := by
  subst same
  refine ⟨?_, ?_, ?_, fun _ _ _ _ _ kept => ConstraintViolation.toViolation_ofRaw kept⟩
  · rintro before call after error rfl answered failed
    obtain ⟨outcome, made⟩ := follow_append asset answered (call :: after)
    rw [follow, failed] at outcome made
    exact ⟨made, congrArg (Except.map _) outcome⟩
  · rintro before call after text rfl answered crashed
    obtain ⟨outcome, made⟩ := follow_append asset answered (call :: after)
    rw [follow, crashed] at outcome made
    exact ⟨made, congrArg (Except.map _) outcome⟩
  · intro answered
    obtain ⟨outcome, made⟩ := follow_append asset answered []
    rw [List.append_nil] at outcome made
    refine ⟨made.trans (List.append_nil calls), (congrArg (Except.map _) outcome).trans ?_⟩
    simp [follow, Except.map, Findings.append, Findings.ofChecked]

/-- A review whose token is never fired evaluates nothing for an asset that cannot be read or that
no target takes; any other is reviewed by the first target that takes it, call after call. -/
theorem review_follows (built : Engine.build schemas runtime library = .ok engine) (input : Json)
    (uncancelled : (engine.review Signal.quiet input).fired = false) :
    (∀ error, Asset.ofJson input = .error error →
      (engine.review Signal.quiet input).outcome = .error (.failed error) ∧
      (engine.review Signal.quiet input).calls = [] ∧
      Asset.ReadError (input.textField "name") error) ∧
    (∀ asset, Asset.ofJson input = .ok asset → (∀ target : Target, target.review? asset = none) →
      (engine.review Signal.quiet input).outcome =
        .error (.failed (.unroutableAsset asset.name asset.assetType)) ∧
      (engine.review Signal.quiet input).calls = []) ∧
    ∀ asset earlier target later review, Asset.ofJson input = .ok asset →
      Target.all = earlier ++ target :: later → (∀ other ∈ earlier, other.review? asset = none) →
      target.review? asset = some review →
      ∃ calls, Planned schemas runtime library target review asset.ancestry
          (engine.table.boundTo target) calls ∧
        Follows runtime asset input review calls (engine.review Signal.quiet input) := by
  refine ⟨fun error unread => ?_, fun asset read refused => ?_, ?_⟩
  · have run : engine.review Signal.quiet input = Run.failed error := by
      unfold Engine.review
      simp only [unread]
    rw [run]
    exact ⟨rfl, rfl, Asset.ofJson_error unread⟩
  · have route : Target.route? asset = none :=
      List.findSome?_eq_none_iff.2 fun target _ => by simp [refused target]
    have run : engine.review Signal.quiet input =
        Run.failed (.unroutableAsset asset.name asset.assetType) := by
      unfold Engine.review
      simp only [read, route]
    rw [run]
    exact ⟨rfl, rfl⟩
  · intro asset earlier target later review read offered refused taken
    have run := engine.review_of_route Signal.quiet read (route?_of_first offered refused taken)
    refine ⟨_, planned_of_build built target review asset.ancestry, follows_of_eq ?_⟩
    rw [run] at uncancelled ⊢
    rw [evaluateFrom_eq_follow asset target review 0 (holds_of_build built target) uncancelled,
      runtime_of_build built]

theorem review_follows_bucket : ∃ engine calls,
    Engine.build .draftFour (Runtime.steady []) PolicyLibrary.probe = .ok engine ∧
    Planned .draftFour (Runtime.steady []) PolicyLibrary.probe .cloudAsset Asset.bucket.envelope
      "organizations/1/folders/2" (engine.table.boundTo .cloudAsset) calls ∧
    (engine.review Signal.quiet Asset.bucket.envelope).calls = calls := by
  obtain ⟨engine, built⟩ := PolicyLibrary.probe_builds (Runtime.steady []) fun _ => ⟨_, rfl⟩
  have never : engine.NeverCancels := by
    intro target kind artifact input _
    rw [runtime_of_build built]
    rfl
  obtain ⟨_, _, routed⟩ := review_follows built Asset.bucket.envelope
    (review_fired never Signal.quiet Asset.bucket.envelope)
  obtain ⟨calls, planned, follows⟩ := routed Asset.bucket [] .cloudAsset [.admission]
    Asset.bucket.envelope rfl rfl (by simp) rfl
  exact ⟨engine, calls, built, planned, (follows.results fun _ _ => ⟨_, rfl⟩).1⟩

end Engine

end PolicyReview
