import PolicyReview.Rego.CompiledUnit
import PolicyReview.Proofs.Engine.Review
import PolicyReview.Proofs.Json.Field
import PolicyReview.Proofs.Violation

/-! What policies report. Each element of the sets of a policy's violation rules, whatever value it is,
comes to one violation or to one error; it is a violation when it is an object with a message and
with details that follow the rules. -/

namespace PolicyReview.Rego

open ConstraintViolation

variable {asset : Asset} {bound : BoundConstraint} {entry input : Json} {raws : List RawResult}

namespace Interpreter

variable {Machine Value : Type} {interpreter : Interpreter Machine Value}

theorem report_cons_eq_ok {package rule : String} {machine : Machine} {rules : List String} :
    interpreter.report package machine (rule :: rules) = .ok raws ↔
      ∃ values next later, interpreter.ask machine (package ++ "." ++ rule) = .ok (values, next) ∧
        interpreter.report package next rules = .ok later ∧
        raws = (values.flatMap entries).map rawResult ++ later := by
  rw [report, bind_eq_ok]
  constructor
  · rintro ⟨⟨values, next⟩, asked, rest⟩
    obtain ⟨later, told, same⟩ := bind_eq_ok.1 rest
    exact ⟨values, next, later, asked, told, (Except.ok.inj same).symm⟩
  · rintro ⟨values, next, later, asked, told, rfl⟩
    exact ⟨(values, next), asked, bind_eq_ok.2 ⟨later, told, rfl⟩⟩

theorem entries_of_evaluate {compiled : CompiledUnit Machine}
    (answered : (interpreter.runtime.evaluate compiled input).answer = .results raws) :
    ∃ value verdicts asked violations told denials last,
      interpreter.ofJson input = .ok value ∧
      interpreter.ask (interpreter.setInput compiled.machine value) guardQuery =
        .ok (verdicts, asked) ∧
      interpreter.ask asked (compiled.package ++ "." ++ "violation") = .ok (violations, told) ∧
      interpreter.ask told (compiled.package ++ "." ++ "deny") = .ok (denials, last) ∧
      raws = ((violations ++ denials).flatMap entries).map rawResult := by
  have given : interpreter.run compiled input = .ok raws := by
    cases results : interpreter.run compiled input with
    | ok others =>
      simp only [runtime, results] at answered
      rw [Answer.results.inj answered]
    | error error =>
      simp only [runtime, results] at answered
      cases answered
  rw [run] at given
  obtain ⟨value, converted, given⟩ := bind_eq_ok.1 given
  obtain ⟨⟨verdicts, asked⟩, guard, given⟩ := bind_eq_ok.1 given
  obtain ⟨-, reported⟩ := unless_eq_ok.1 given
  rw [violationRules, report_cons_eq_ok] at reported
  obtain ⟨violations, told, later, first, reported, rfl⟩ := reported
  obtain ⟨denials, last, none, second, ended, rfl⟩ := report_cons_eq_ok.1 reported
  obtain rfl := Except.ok.inj ended
  refine ⟨value, verdicts, asked, violations, told, denials, last, ?_, guard, first, second, ?_⟩
  · cases made : interpreter.ofJson input with
    | ok other => simpa [made, Except.mapError] using converted
    | error diagnostic => simp [made, Except.mapError] at converted
  · rw [List.flatMap_append, List.map_append, List.append_nil]

end Interpreter

/-- The element is an object with a message that is not empty, and with details that are missing, null
or an object without the reserved keys. -/
structure Reports (entry : Json) : Prop where
  object : ∃ fields, entry = .object fields
  message : ∃ text, entry.field? "msg" = some (.string text) ∧ text ≠ ""
  details : entry.field? "details" = none ∨ ∃ details fields,
    entry.field? "details" = some details ∧ Details details fields ∧
      "constraint" ∉ fields.map (·.1) ∧ "ancestry_path" ∉ fields.map (·.1)

theorem ofRaw_rawResult : (∃ violation, ofRaw asset bound (rawResult entry) = .ok violation) ↔
    Reports entry := by
  rw [ofRaw_accepts]
  cases entry with
  | object fields =>
    change (Json.object fields).textField "msg" ≠ "" ∧ (∃ others,
      Details (((Json.object fields).field? "details").getD .null) others ∧ _) ↔ _
    rw [Ne, Json.textField_eq_empty, not_not]
    constructor
    · rintro ⟨message, inner, detailed, free⟩
      refine ⟨⟨fields, rfl⟩, message, ?_⟩
      cases given : (Json.object fields).field? "details" with
      | none => exact .inl rfl
      | some details =>
        rw [given] at detailed
        exact .inr ⟨details, inner, rfl, detailed, free⟩
    · rintro ⟨-, message, missing | ⟨details, inner, given, detailed, free⟩⟩
      · rw [missing]
        exact ⟨message, [], .null, List.not_mem_nil, List.not_mem_nil⟩
      · rw [given]
        exact ⟨message, inner, detailed, free⟩
  | _ =>
    constructor
    · rintro ⟨told, _⟩
      exact absurd rfl told
    · rintro ⟨⟨fields, same⟩, _⟩
      cases same

/-- Every element, in order, makes one violation when it reports, and one error when it does not. -/
inductive Accounted (asset : Asset) (bound : BoundConstraint) :
    List Json → List ConstraintViolation → List ReviewError → Prop where
  | nil : Accounted asset bound [] [] []
  | violation {entry : Json} {violation : ConstraintViolation} {entries : List Json}
    {violations : List ConstraintViolation} {errors : List ReviewError} (reports : Reports entry)
    (made : ofRaw asset bound (rawResult entry) = .ok violation)
    (rest : Accounted asset bound entries violations errors) :
    Accounted asset bound (entry :: entries) (violation :: violations) errors
  | skipped {entry : Json} {error : ReviewError} {entries : List Json}
    {violations : List ConstraintViolation} {errors : List ReviewError}
    (silent : ¬Reports entry) (failed : ofRaw asset bound (rawResult entry) = .error error)
    (rest : Accounted asset bound entries violations errors) :
    Accounted asset bound (entry :: entries) violations (error :: errors)

theorem accounted (asset : Asset) (bound : BoundConstraint) (entries : List Json) :
    let findings := Findings.ofResults asset bound (entries.map rawResult)
    Accounted asset bound entries findings.violations findings.skipped := by
  rw [Findings.ofResults_eq]
  induction entries with
  | nil => exact .nil
  | cons entry rest ih =>
    rw [List.map_cons, List.map_cons]
    cases made : ofRaw asset bound (rawResult entry) with
    | ok violation => exact .violation (ofRaw_rawResult.1 ⟨violation, made⟩) made ih
    | error error =>
      refine .skipped (fun reports => ?_) made ih
      obtain ⟨violation, kept⟩ := ofRaw_rawResult.2 reports
      rw [made] at kept
      cases kept

/-- Results are refused for the first rule that they break, under the names of the asset and of the
constraint, and stand for a violation when they keep all. What an evaluation gives are the entries
of its two rules; each of them comes to one violation if it reports one, and to one error if not. -/
theorem ofRaw_rules (asset : Asset) (bound : BoundConstraint) :
    (∀ raw, Enforces (ofRaw asset bound raw) Rule.order (Rule.Holds raw) (Rule.error asset bound)) ∧
    (∀ raw violation, ofRaw asset bound raw = .ok violation →
      StandsFor asset bound raw violation) ∧
    (∀ entry, (∃ violation, ofRaw asset bound (rawResult entry) = .ok violation) ↔
      Reports entry) ∧
    ∀ (Machine Value : Type) (interpreter : Interpreter Machine Value) compiled input raws,
      (interpreter.runtime.evaluate compiled input).answer = .results raws →
      ∃ value verdicts asked violations told denials last,
        interpreter.ofJson input = .ok value ∧
        interpreter.ask (interpreter.setInput compiled.machine value) guardQuery =
          .ok (verdicts, asked) ∧
        interpreter.ask asked (compiled.package ++ "." ++ "violation") = .ok (violations, told) ∧
        interpreter.ask told (compiled.package ++ "." ++ "deny") = .ok (denials, last) ∧
        raws = ((violations ++ denials).flatMap Interpreter.entries).map rawResult ∧
        Accounted asset bound ((violations ++ denials).flatMap Interpreter.entries)
          (Findings.ofResults asset bound raws).violations
          (Findings.ofResults asset bound raws).skipped := by
  refine ⟨ofRaw_enforces asset bound, fun raw violation => standsFor_of_ofRaw,
    fun entry => ofRaw_rawResult, fun Machine Value interpreter compiled input raws answered => ?_⟩
  obtain ⟨value, verdicts, asked, violations, told, denials, last, converted, guard, first, second,
    rfl⟩ := Interpreter.entries_of_evaluate answered
  exact ⟨value, verdicts, asked, violations, told, denials, last, converted, guard, first, second,
    rfl, accounted asset bound _⟩

end PolicyReview.Rego
