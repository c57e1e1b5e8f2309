import PolicyReview.Proofs.Fallible
import PolicyReview.Proofs.Rego.Language

/-! Guards. An input of which the conditions of a guard hold is not rejected by a unit that holds the
preamble with this guard and otherwise only modules that add no rules to the package of preambles,
whatever interpreter runs the unit, as long as it follows its language. -/

namespace PolicyReview.Rego

theorem RegoError.eq_rejected_of_message {error : RegoError}
    (same : error.message = guardRejected.message) : error = .guardRejected := by
  have text : guardRejected.message = "review rejected by data.target.valid_review" := by decide
  rw [text] at same
  have begins {start rest : String} {first : Char} (head : start.toList.head? = some first)
      (whole : start ++ rest = "review rejected by data.target.valid_review") : first = 'r' := by
    have here : (start ++ rest).toList.head? = some first := by
      rw [String.toList_append, List.head?_append, head]
      rfl
    rw [whole] at here
    exact (Option.some.inj here).symm
  cases error with
  | guardRejected => rfl
  | parse module diagnostic =>
    have colon : ':' ∈ (module ++ ": " ++ diagnostic).toList := by
      simp only [String.toList_append, List.mem_append]
      exact .inl (.inr (by decide))
    have whole : module ++ ": " ++ diagnostic = "review rejected by data.target.valid_review" := same
    rw [whole] at colon
    exact absurd colon (by decide)
  | missingTemplate kind =>
    have whole : "compile unit for " ++ kind ++ " has no template module" =
        "review rejected by data.target.valid_review" := same
    rw [String.append_assoc] at whole
    exact absurd (begins rfl whole) (by decide)
  | query text diagnostic =>
    have whole : "query " ++ text ++ " failed: " ++ diagnostic =
        "review rejected by data.target.valid_review" := same
    rw [String.append_assoc, String.append_assoc] at whole
    exact absurd (begins rfl whole) (by decide)
  | convert diagnostic => exact absurd (begins rfl same) (by decide)

namespace Interpreter

variable {Machine Value : Type} {interpreter : Interpreter Machine Value} {language : Language}
  {unit : CompileUnit} {compiled : CompiledUnit Machine} {policy : PolicyModule}
  {rest : List PolicyModule} {input : Json} {conditions : List String}

def loaded (policy : PolicyModule) : String × String :=
  (policy.name, qualifyImports policy.source)

theorem loads_of_loadFrom {sources : List (String × String)} {machine : Machine}
    {package : Option String} {modules : List PolicyModule} {result : Machine × Option String}
    (before : interpreter.Loads sources machine)
    (all : interpreter.loadFrom machine package modules = .ok result) :
    interpreter.Loads (sources ++ modules.map loaded) result.1 := by
  induction modules generalizing sources machine package with
  | nil =>
    obtain rfl := Except.ok.inj all
    simpa using before
  | cons policy rest ih =>
    rw [loadFrom] at all
    split at all
    · cases all
    next next path added =>
      have step := ih (before.add added) all
      rwa [List.append_assoc] at step

theorem loads_of_load (load : interpreter.load unit = .ok compiled) :
    interpreter.Loads (unit.modules.map loaded) compiled.machine := by
  rw [Interpreter.load] at load
  obtain ⟨⟨machine, package⟩, all, found⟩ := bind_eq_ok.1 load
  have made := loads_of_loadFrom (.fresh) all
  cases package with
  | none => cases found
  | some package =>
    obtain rfl := Except.ok.inj found
    exact made

theorem ask_ne_rejected (machine : Machine) (text : String) :
    interpreter.ask machine text ≠ .error .guardRejected := by
  rw [ask, Ne, bind_eq_error]
  rintro (failed | ⟨_, -, failed⟩)
  · obtain ⟨_, -, ⟨⟩⟩ := mapError_eq_error.1 failed
  rcases bind_eq_error.1 failed with failed | ⟨_, -, ⟨⟩⟩
  refine mapM_ne_error (fun value fails => ?_) _ failed
  obtain ⟨_, -, ⟨⟩⟩ := mapError_eq_error.1 fails

theorem report_ne_rejected (package : String) (machine : Machine) (rules : List String) :
    interpreter.report package machine rules ≠ .error .guardRejected := by
  induction rules generalizing machine with
  | nil => nofun
  | cons rule rest ih =>
    rw [report, Ne, bind_eq_error]
    rintro (failed | ⟨_, -, failed⟩)
    · exact ask_ne_rejected _ _ failed
    rcases bind_eq_error.1 failed with failed | ⟨_, -, ⟨⟩⟩
    exact ih _ failed

/-- A review is rejected exactly where the guard is asked and no answer is true. -/
theorem run_eq_rejected : interpreter.run compiled input = .error .guardRejected ↔
    ∃ value verdicts next, interpreter.ofJson input = .ok value ∧
      interpreter.ask (interpreter.setInput compiled.machine value) guardQuery =
        .ok (verdicts, next) ∧ verdicts.any isTrue = false := by
  rw [run, bind_eq_error]
  constructor
  · rintro (failed | ⟨value, converted, failed⟩)
    · obtain ⟨_, -, ⟨⟩⟩ := mapError_eq_error.1 failed
    rcases bind_eq_error.1 failed with failed | ⟨⟨verdicts, next⟩, asked, rejected⟩
    · exact absurd failed (ask_ne_rejected _ _)
    refine ⟨value, verdicts, next, mapError_eq_ok.1 converted, asked, ?_⟩
    by_contra held
    rw [Bool.not_eq_false] at held
    simp only [held] at rejected
    exact report_ne_rejected _ _ _ rejected
  · rintro ⟨value, verdicts, next, converted, asked, untrue⟩
    refine .inr ⟨value, mapError_eq_ok.2 converted, bind_eq_error.2 (.inr ⟨_, asked, ?_⟩)⟩
    simp only [untrue]
    rfl

theorem ask_eq_ok {machine next : Machine} {text : String} {found : List Json} :
    interpreter.ask machine text = .ok (found, next) ↔
      ∃ values, interpreter.query machine text = .ok (values, next) ∧
        ((values.filterMap id).mapM fun value =>
          (interpreter.toJson value).mapError RegoError.convert) = .ok found := by
  rw [ask, bind_eq_ok]
  constructor
  · rintro ⟨⟨values, machine⟩, asked, rest⟩
    obtain ⟨found, converted, same⟩ := bind_eq_ok.1 rest
    obtain ⟨rfl, rfl⟩ := Prod.mk.inj (Except.ok.inj same)
    exact ⟨values, mapError_eq_ok.1 asked, converted⟩
  · rintro ⟨values, asked, converted⟩
    exact ⟨_, mapError_eq_ok.2 asked, bind_eq_ok.2 ⟨_, converted, rfl⟩⟩

section

variable {name : String} {bound : Target.BoundSet}
  (follows : interpreter.Follows language) (load : interpreter.load unit = .ok compiled)
  (modules : unit.modules = policy :: rest)
  (source : qualifyImports policy.source = Target.renderPreamble name bound conditions)
  (leave : ∀ other ∈ rest, ¬language.Adds (qualifyImports other.source) "data.target")
  (some : conditions ≠ []) (each : ∀ condition ∈ conditions, language.IsCondition condition)
  (hold : ∀ condition ∈ conditions, language.Holds condition input)

include follows load modules source leave some each hold

/-- The guard of a preamble is true of an input of which its conditions hold. -/
theorem ask_guard {value : Value} {verdicts : List Json} {next : Machine}
    (converted : interpreter.ofJson input = .ok value)
    (asked : interpreter.ask (interpreter.setInput compiled.machine value) guardQuery =
      .ok (verdicts, next)) : verdicts = [.bool true] := by
  obtain ⟨values, answered, encoded⟩ := ask_eq_ok.1 asked
  have loads : interpreter.Loads ([] ++ (policy.name,
      Target.renderPreamble name bound conditions) :: rest.map loaded) compiled.machine := by
    have made := loads_of_load load
    rwa [modules, List.map_cons, loaded, source] at made
  have others : ∀ other ∈ [] ++ rest.map loaded, ¬language.Adds other.2 "data.target" := by
    intro other member
    obtain ⟨policy, inside, rfl⟩ := List.mem_map.1 member
    exact leave policy inside
  obtain ⟨answer, rfl, told⟩ := follows.rule_holds loads
    (follows.preamble_defines name bound conditions some each) others converted hold answered
  have single : ([answer].mapM fun value =>
      (interpreter.toJson value).mapError RegoError.convert) = .ok [Json.bool true] := by
    rw [List.mapM_cons, told]
    rfl
  exact Except.ok.inj (encoded.symm.trans single)

theorem run_ne_rejected : interpreter.run compiled input ≠ .error .guardRejected := by
  rw [Ne, run_eq_rejected]
  rintro ⟨value, verdicts, next, converted, asked, untrue⟩
  rw [ask_guard follows load modules source leave some each hold converted asked] at untrue
  cases untrue

end

end Interpreter

end PolicyReview.Rego
