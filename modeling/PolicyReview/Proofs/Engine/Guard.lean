import PolicyReview.Proofs.Engine.Firing
import PolicyReview.Proofs.Engine.Units
import PolicyReview.Proofs.Rego.Guard
import PolicyReview.Proofs.Rego.Machine
import PolicyReview.Proofs.Target.Preamble

/-! The guard of an engine. What the engine gives to a compiled policy is a review that the policy's
target made of an asset, so that the guard of the target, which stands in the policy's preamble,
never rejects it. -/

namespace PolicyReview

/-- Only preambles add rules to the package of preambles. -/
def PolicyLibrary.LeavesTarget (schemas : Schema.Compiler) (language : Rego.Language)
    (library : PolicyLibrary) : Prop :=
  ∀ unit ∈ Engine.units schemas library, ∀ module ∈ unit.modules, module.role ≠ .preamble →
    ¬language.Adds (Rego.qualifyImports module.source) "data.target"

namespace Engine

section

variable {Artifact : Type} {engine : Engine Artifact} {runtime : Runtime Artifact}
  {schemas : Schema.Compiler} {library : PolicyLibrary} {target : Target} {asset : Asset}
  {review : Json}

theorem unit_of_find? {kind : String} {artifact : Artifact}
    (built : Engine.build schemas runtime library = .ok engine)
    (found : engine.artifacts.find? target kind = some artifact) :
    ∃ unit ∈ Engine.units schemas library, unit.target = target.name ∧
      runtime.compile unit = .ok artifact := by
  obtain ⟨-, rfl⟩ := PolicyLibrary.build_eq_ok.1 built
  have member := mem_of_lookup found
  simp only [Compilation.compileAll, List.filterMap_map, List.mem_filterMap] at member
  obtain ⟨⟨other, unit⟩, piece, made⟩ := member
  cases compiled : runtime.compile unit with
  | error error => simp [Function.comp, compiled, Except.toOption] at made
  | ok result =>
    simp only [Function.comp, compiled, Except.toOption, Option.map_some, Option.some.injEq,
      Prod.mk.injEq] at made
    obtain ⟨⟨rfl, -⟩, rfl⟩ := made
    exact ⟨unit, List.mem_map.2 ⟨_, piece, rfl⟩, Compilation.target_of_mem_units piece, compiled⟩

theorem preambleOf_eq {name : String} (known : Target.ofName? name = some target) :
    library.preambleOf schemas name =
      target.preamble (Target.BoundSet.ofConstraints (library.boundConstraints schemas name)) := by
  obtain rfl := Target.ofName?_eq_some.1 known
  rw [PolicyLibrary.preambleOf, known]
  rfl

theorem modules_of_mem_units {unit : CompileUnit} (member : unit ∈ Engine.units schemas library)
    (named : unit.target = target.name) : ∃ policy rest, unit.modules = policy :: rest ∧
      policy.source = target.preamble
        (Target.BoundSet.ofConstraints (library.boundConstraints schemas target.name)) ∧
      ∀ other ∈ rest, other.role ≠ .preamble := by
  rw [PolicyLibrary.units_eq_flatMap] at member
  obtain ⟨template, -, member⟩ := List.mem_flatMap.1 member
  obtain ⟨binding, -, rfl⟩ := List.mem_map.1 member
  refine ⟨_, _, rfl, ?_, fun other inside => ?_⟩
  · have same : binding.target = target.name := named
    rw [← same]
    exact preambleOf_eq (Target.ofName?_eq_some.2 same.symm)
  · rcases List.mem_append.1 inside with shared | own
    · obtain ⟨_, -, rfl⟩ := List.mem_map.1 shared
      nofun
    rcases List.mem_append.1 own with bundled | source
    · obtain ⟨_, -, rfl⟩ := List.mem_map.1 bundled
      nofun
    · rw [List.mem_singleton.1 source]
      nofun

theorem mem_plan_of_mem_calls {signal : Signal} {look : Nat} {fired : Bool}
    {bounds : List BoundConstraint} {call : Call Artifact} (held : engine.Holds target bounds)
    (member : call ∈ (engine.evaluateFrom signal asset target review look fired bounds).calls) :
    call ∈ engine.plan target review asset.ancestry bounds := by
  induction bounds generalizing look fired with
  | nil => cases member
  | cons bound rest ih =>
    obtain ⟨artifact, found⟩ := held bound List.mem_cons_self
    have later {look : Nat} {fired : Bool} := @ih look fired fun other inside =>
      held other (List.mem_cons_of_mem bound inside)
    have split : engine.plan target review asset.ancestry (bound :: rest) =
        engine.plan target review asset.ancestry [bound] ++
          engine.plan target review asset.ancestry rest :=
      engine.plan_append target review asset.ancestry [bound] rest
    rw [split, List.mem_append]
    by_cases stopped : (fired || signal look) = true
    · rw [evaluateFrom_of_fired stopped (List.cons_ne_nil bound rest)] at member
      cases member
    obtain ⟨rfl, unfired⟩ := Bool.or_eq_false_iff.1 (Bool.not_eq_true _ ▸ stopped)
    by_cases applies : bound.rule.applies asset.ancestry = true
    · rw [evaluateFrom_of_applies unfired applies found rfl] at member
      rw [plan_of_applies applies found, List.mem_singleton]
      refine (List.mem_cons.1 member).imp_right fun inside => ?_
      cases answered : (engine.runtime.evaluate artifact
          (evaluationInput review bound.constraint)).answer with
      | crash text =>
        rw [answered] at inside
        cases inside
      | failure error =>
        rw [answered] at inside
        cases inside
      | results raws =>
        rw [answered] at inside
        exact later inside
    · rw [evaluateFrom_of_not_applies unfired applies] at member
      exact .inr (later member)

theorem planned_of_mem_review {signal : Signal} {input : Json} {call : Call Artifact}
    (held : ∀ target, engine.Holds target (engine.table.boundTo target))
    (member : call ∈ (engine.review signal input).calls) :
    ∃ target asset review, Target.route? asset = some (target, review) ∧
      call ∈ engine.plan target review asset.ancestry (engine.table.boundTo target) := by
  unfold Engine.review at member
  split at member
  · cases member
  next asset _ =>
    split at member
    · cases member
    next target review route =>
      exact ⟨target, asset, review, route, mem_plan_of_mem_calls (held target) member⟩

end

section

variable {Machine Value : Type} {interpreter : Rego.Interpreter Machine Value}
  {language : Rego.Language} {schemas : Schema.Compiler} {library : PolicyLibrary}
  {engine : Engine (Rego.CompiledUnit Machine)} {artifact : Rego.CompiledUnit Machine}
  {target : Target} {asset : Asset} {review input : Json} {kind : String}

/-- What is compiled for a target was loaded from a preamble of the target and from modules that
add no rule to its package. -/
theorem load_of_find? (built : Engine.build schemas interpreter.runtime library = .ok engine)
    (leaves : library.LeavesTarget schemas language)
    (found : engine.artifacts.find? target kind = some artifact) :
    ∃ unit policy rest bound, interpreter.load unit = .ok artifact ∧ unit.modules = policy :: rest ∧
      Rego.qualifyImports policy.source =
        Target.renderPreamble target.name bound (target.tests.map Rego.Test.text) ∧
      ∀ other ∈ rest, ¬language.Adds (Rego.qualifyImports other.source) "data.target" := by
  obtain ⟨unit, member, named, compiled⟩ := unit_of_find? built found
  obtain ⟨policy, rest, modules, source, roles⟩ := modules_of_mem_units member named
  have read : Rego.qualifyImports policy.source = Target.renderPreamble target.name _
      (target.tests.map Rego.Test.text) :=
    (congrArg Rego.qualifyImports source).trans (target.qualifyImports_preamble _)
  refine ⟨unit, policy, rest, _, mapError_eq_ok.1 compiled, modules, read, fun other inside => ?_⟩
  exact leaves unit member other (modules ▸ List.mem_cons_of_mem policy inside)
    (roles other inside)

theorem isCondition_of_guards (follows : interpreter.Follows language) :
    ∀ condition ∈ target.tests.map Rego.Test.text, language.IsCondition condition := by
  intro condition member
  obtain ⟨test, inside, rfl⟩ := List.mem_map.1 member
  exact follows.test_isCondition test (target.isProper_of_tests test inside)

theorem holds_of_guards (follows : interpreter.Follows language)
    (taken : target.review? asset = some review) (held : input.field? "review" = some review) :
    ∀ condition ∈ target.tests.map Rego.Test.text, language.Holds condition input := by
  intro condition member
  obtain ⟨test, inside, rfl⟩ := List.mem_map.1 member
  exact follows.test_holds test input (target.isProper_of_tests test inside)
    (Target.passes_of_review? taken held test inside)

theorem tests_ne_nil (target : Target) : target.tests ≠ [] := by
  cases target <;> exact List.cons_ne_nil _ _

theorem guards_ne_nil (target : Target) : target.tests.map Rego.Test.text ≠ [] :=
  mt List.map_eq_nil_iff.1 (tests_ne_nil target)

section

variable (follows : interpreter.Follows language)
  (built : Engine.build schemas interpreter.runtime library = .ok engine)
  (leaves : library.LeavesTarget schemas language)
  (found : engine.artifacts.find? target kind = some artifact)
  (taken : target.review? asset = some review)

include follows built leaves found taken

theorem ask_guard_of_review? {constraint : Constraint} {value : Value} {verdicts : List Json}
    {next : Machine} (converted : interpreter.ofJson (evaluationInput review constraint) = .ok value)
    (asked : interpreter.ask (interpreter.setInput artifact.machine value) Rego.guardQuery =
      .ok (verdicts, next)) : verdicts = [.bool true] := by
  obtain ⟨_, _, _, _, load, modules, source, leave⟩ := load_of_find? built leaves found
  exact Rego.Interpreter.ask_guard follows load modules source leave (guards_ne_nil target)
    (isCondition_of_guards follows) (holds_of_guards follows taken rfl) converted asked

theorem answer_ne_rejected (constraint : Constraint) :
    (interpreter.runtime.evaluate artifact (evaluationInput review constraint)).answer ≠
      .failure (.evaluate Rego.RegoError.guardRejected.message) := by
  obtain ⟨_, _, _, _, load, modules, source, leave⟩ := load_of_find? built leaves found
  have held : interpreter.run artifact (evaluationInput review constraint) ≠ .error .guardRejected :=
    Rego.Interpreter.run_ne_rejected follows load modules source leave (guards_ne_nil target)
      (isCondition_of_guards follows) (holds_of_guards follows taken rfl)
  simp only [Rego.Interpreter.runtime]
  cases answered : interpreter.run artifact (evaluationInput review constraint) with
  | ok raws => nofun
  | error error =>
    intro same
    have message := RuntimeError.evaluate.inj (Answer.failure.inj same)
    rw [answered, Rego.RegoError.eq_rejected_of_message message] at held
    exact held rfl

end

end

/-- No two targets take the same asset, whatever the order in which they are asked, and a review
passes the tests that the guard of its target makes. Whatever interpreter of the language runs a
library that leaves the package of preambles to them, it therefore rejects no review. -/
theorem review_passesGuard :
    (∀ (asset : Asset) (first second : Target) (review other : Json),
      first.review? asset = some review → second.review? asset = some other → first = second) ∧
    (∀ order : List Target, order.Perm Target.all → ∀ asset : Asset,
      order.findSome? (fun target => (target.review? asset).map (target, ·)) =
        Target.route? asset) ∧
    (∀ (target : Target) (bound : Target.BoundSet),
      Rego.qualifyImports (target.preamble bound) =
        Target.renderPreamble target.name bound (target.tests.map Rego.Test.text)) ∧
    (∀ (target : Target) (asset : Asset) (review : Json), target.review? asset = some review →
      ∀ input : Json, input.field? "review" = some review →
        ∀ test ∈ target.tests, test.IsProper ∧ test.Passes input) ∧
    ∀ (Machine Value : Type) (interpreter : Rego.Interpreter Machine Value)
      (language : Rego.Language), interpreter.Follows language →
      (∀ (target : Target) (asset : Asset) (review : Json), target.review? asset = some review →
        ∀ input : Json, input.field? "review" = some review →
          ∀ condition ∈ target.guards, language.Holds condition input) ∧
      ∀ (schemas : Schema.Compiler) (library : PolicyLibrary)
        (engine : Engine (Rego.CompiledUnit Machine)),
        Engine.build schemas interpreter.runtime library = .ok engine →
        library.LeavesTarget schemas language →
        (∀ (target : Target) (asset : Asset) (review : Json), target.review? asset = some review →
          ∀ (kind : String) (artifact : Rego.CompiledUnit Machine),
            engine.artifacts.find? target kind = some artifact → ∀ constraint : Constraint,
            (∀ (value : Value) (verdicts : List Json) (next : Machine),
              interpreter.ofJson (evaluationInput review constraint) = .ok value →
              interpreter.ask (interpreter.setInput artifact.machine value) Rego.guardQuery =
                .ok (verdicts, next) → verdicts = [.bool true]) ∧
            (interpreter.runtime.evaluate artifact (evaluationInput review constraint)).answer ≠
              .failure (.evaluate Rego.RegoError.guardRejected.message)) ∧
        ∀ (signal : Signal) (input : Json), ∀ call ∈ (engine.review signal input).calls,
          (engine.runtime.evaluate call.artifact call.input).answer ≠
            .failure (.evaluate Rego.RegoError.guardRejected.message) := by
  refine ⟨fun _ _ _ _ _ => Target.review?_unique, fun _ => Target.findSome?_review?_perm,
    Target.qualifyImports_preamble, fun target asset review taken input held test inside =>
      ⟨target.isProper_of_tests test inside, Target.passes_of_review? taken held test inside⟩, ?_⟩
  intro Machine Value interpreter language follows
  refine ⟨fun target asset review taken input held => ?_, ?_⟩
  · rw [target.guards_eq]
    exact holds_of_guards follows taken held
  intro schemas library engine built leaves
  refine ⟨fun target asset review taken kind artifact found constraint =>
    ⟨fun value verdicts next => ask_guard_of_review? follows built leaves found taken,
      answer_ne_rejected follows built leaves found taken constraint⟩,
    fun signal input call member => ?_⟩
  obtain ⟨target, asset, review, route, planned⟩ := planned_of_mem_review (holds_of_build built) member
  obtain ⟨-, found, given⟩ := mem_plan planned
  rw [runtime_of_build built, given]
  exact answer_ne_rejected follows built leaves found (Target.route?_eq_some.1 route)
    call.bound.constraint

theorem read?_probe : Rego.Module.read? (Rego.qualifyImports "package probe") =
    some { package := ["probe"] } := rfl

theorem load_probe {unit : CompileUnit}
    (member : unit ∈ Engine.units .draftFour PolicyLibrary.probe) :
    (∀ policy ∈ unit.modules, policy.role ≠ .preamble → policy.source = "package probe") ∧
    ∃ target : Target, unit.target = target.name ∧ ∃ bound, Rego.Machine.interpreter.load unit = .ok {
      machine := { program := [(Rego.preambleModule target.name bound target.tests).arrange,
        ({ package := ["probe"] } : Rego.Module).arrange] }
      package := Rego.dataText ["probe"] } := by
  rw [PolicyLibrary.units_eq_flatMap] at member
  obtain ⟨template, accepted, inside⟩ := List.mem_flatMap.1 member
  obtain ⟨binding, listed, rfl⟩ := List.mem_map.1 inside
  have here := List.mem_of_find?_eq_some
    (Registry.mem_accepted.1 (List.mem_mergeSort.1 accepted)).1
  have own : ∀ template ∈ PolicyLibrary.probe.templates, ∀ binding ∈ template.targets,
      binding.source = "package probe" ∧ binding.libraries = [] ∧
        (Target.ofName? binding.target).isSome = true := by
    decide
  obtain ⟨source, libraries, named⟩ := own template here binding listed
  obtain ⟨target, known⟩ := Option.isSome_iff_exists.1 named
  obtain ⟨place, modules⟩ : ∃ place,
      (PolicyLibrary.probe.unitFor .draftFour template binding).modules =
        [{ name := binding.target ++ "/preamble.rego"
           source := PolicyLibrary.probe.preambleOf .draftFour binding.target, role := .preamble },
         { name := place, source := "package probe", role := .template }] := by
    refine ⟨template.path ++ "#" ++ binding.target, ?_⟩
    have sorted : Compilation.sortedModules PolicyLibrary.probe.modules = [] := List.mergeSort_nil
    simp [PolicyLibrary.unitFor, PolicyLibrary.bindingModules, sorted, source, libraries]
  refine ⟨?_, target, (Target.ofName?_eq_some.1 known).symm, Target.BoundSet.ofConstraints
    (PolicyLibrary.probe.boundConstraints .draftFour binding.target), ?_⟩
  · rw [modules]
    simp
  · have preamble : Rego.Module.read? (Rego.qualifyImports
        (PolicyLibrary.probe.preambleOf .draftFour binding.target)) = some (Rego.preambleModule
          target.name (Target.BoundSet.ofConstraints
            (PolicyLibrary.probe.boundConstraints .draftFour binding.target)) target.tests) := by
      rw [preambleOf_eq known, Target.qualifyImports_preamble]
      exact Rego.read?_preamble _ _ (tests_ne_nil target) target.isProper_of_tests
    exact Rego.Machine.load_pair modules rfl preamble read?_probe

theorem ask_probe {unit : CompileUnit} {compiled : Rego.CompiledUnit Rego.Machine}
    {target : Target} {asset : Asset} {review input : Json}
    (member : unit ∈ Engine.units .draftFour PolicyLibrary.probe) (named : unit.target = target.name)
    (load : Rego.Machine.interpreter.load unit = .ok compiled)
    (taken : target.review? asset = some review) (held : input.field? "review" = some review) :
    ∃ verdicts next, Rego.Machine.interpreter.ask (Rego.Machine.interpreter.setInput
      compiled.machine (.ofJson input)) Rego.guardQuery = .ok (verdicts, next) := by
  obtain ⟨-, other, same, bound, loaded⟩ := load_probe member
  have alike : Target.ofName? other.name = some target := by
    rw [← same, named]
    exact Target.ofName?_eq_some.2 rfl
  obtain rfl := Option.some.inj (alike.symm.trans (Target.ofName?_eq_some.2 rfl))
  obtain rfl := Except.ok.inj (loaded.symm.trans load)
  have arranged := Rego.Machine.arrange_preamble target.name bound target.tests
  have safe : Rego.Program.isSafe [(Rego.preambleModule target.name bound target.tests).arrange,
      ({ package := ["probe"] } : Rego.Module).arrange] = true := by
    rw [arranged, Rego.Program.isSafe, List.all_cons, Rego.Machine.isSafe_preamble]
    rfl
  have defined (name : String) : Rego.Program.definitions
      [(Rego.preambleModule target.name bound target.tests).arrange,
        ({ package := ["probe"] } : Rego.Module).arrange] (["target"] ++ [name]) =
      ((Rego.preambleModule target.name bound target.tests).rules.filter (·.name = name)).map
        fun rule => ((Rego.preambleModule target.name bound target.tests).arrange, rule.arrange) := by
    have own := Rego.Machine.definitions_arrange
      (Rego.preambleModule target.name bound target.tests) name
    rw [Rego.Program.definitions, List.flatMap_singleton] at own
    rw [Rego.Program.definitions, List.flatMap_cons]
    exact (congrArg (· ++ _) own).trans (List.append_nil _)
  have held := Rego.Machine.query_guard safe
    (Rego.Machine.guards_preamble target.name bound target.isProper_of_tests) defined
    (Target.passes_of_review? taken held)
  have asked : Rego.Machine.query ⟨[(Rego.preambleModule target.name bound target.tests).arrange,
      ({ package := ["probe"] } : Rego.Module).arrange], .ofJson input⟩ Rego.guardQuery =
        .ok (some (.bool true)) :=
    (Rego.Machine.query_eq_ok Rego.Machine.dataPath?_guard).2 held
  exact ⟨_, _, Rego.Interpreter.ask_eq_ok.2 ⟨_, map_eq_ok.2 ⟨_, asked, rfl⟩, rfl⟩⟩

theorem build_probe : ∃ engine, Engine.build .draftFour Rego.Machine.interpreter.runtime
    PolicyLibrary.probe = .ok engine := by
  have clean : PolicyLibrary.probe.faults .draftFour Rego.Machine.interpreter.runtime = [] := by
    refine PolicyLibrary.faults_eq_nil.2 ⟨PolicyLibrary.probe_sound, fun unit member => ?_⟩
    obtain ⟨-, target, -, bound, loaded⟩ := load_probe member
    exact ⟨_, mapError_eq_ok.2 loaded⟩
  exact ⟨_, PolicyLibrary.build_eq_ok.2 ⟨clean, rfl⟩⟩

theorem leavesTarget_probe :
    PolicyLibrary.probe.LeavesTarget .draftFour Rego.Machine.language := by
  rintro unit member policy listed role ⟨module, read, -, some⟩
  rw [(load_probe member).1 policy listed role] at read
  obtain rfl := Option.some.inj (read?_probe.symm.trans read)
  exact some rfl

theorem call_of_build_probe {Artifact : Type} {runtime : Runtime Artifact}
    {engine : Engine Artifact}
    (built : Engine.build .draftFour runtime PolicyLibrary.probe = .ok engine) :
    ∃ bound artifact, engine.artifacts.find? .cloudAsset bound.constraint.kind = some artifact ∧
      ⟨bound, artifact, evaluationInput Asset.bucket.envelope bound.constraint⟩ ∈
        (engine.review Signal.quiet Asset.bucket.envelope).calls := by
  obtain ⟨constraints, parsed⟩ := boundTo_of_build built .cloudAsset
  have all : PolicyLibrary.probe.constraints.filter
      (PolicyLibrary.probe.binds .cloudAsset) = PolicyLibrary.probe.constraints := rfl
  rw [all] at constraints
  obtain ⟨bound, rest, bounds, own, -⟩ := List.map_eq_cons_iff.1 constraints
  have first : bound ∈ engine.table.boundTo .cloudAsset := bounds ▸ List.mem_cons_self
  have applies : bound.rule.applies Asset.bucket.ancestry = true := by
    have verdict : (MatchRule.ofConstraint bound.constraint).map
        (·.applies Asset.bucket.ancestry) = .ok true := by
      rw [own]
      rfl
    rw [parsed bound first] at verdict
    exact Except.ok.inj verdict
  obtain ⟨artifact, found⟩ := holds_of_build built .cloudAsset bound first
  refine ⟨bound, artifact, found, ?_⟩
  have read : Asset.ofJson Asset.bucket.envelope = .ok Asset.bucket := rfl
  rw [engine.review_of_route Signal.quiet read rfl, bounds]
  change _ ∈ (engine.evaluateFrom _ _ _ _ 0 false (bound :: rest)).calls
  rw [evaluateFrom_of_applies rfl applies found rfl]
  exact List.mem_cons_self

theorem review_passesGuard_bucket : ∃ engine call value next,
    Rego.Machine.interpreter.Follows Rego.Machine.language ∧
    Engine.build .draftFour Rego.Machine.interpreter.runtime PolicyLibrary.probe = .ok engine ∧
    PolicyLibrary.probe.LeavesTarget .draftFour Rego.Machine.language ∧
    call ∈ (engine.review Signal.quiet Asset.bucket.envelope).calls ∧
    Rego.Machine.interpreter.ofJson call.input = .ok value ∧
    Rego.Machine.interpreter.ask
      (Rego.Machine.interpreter.setInput call.artifact.machine value) Rego.guardQuery =
        .ok ([.bool true], next) ∧
    (engine.runtime.evaluate call.artifact call.input).answer ≠
      .failure (.evaluate Rego.RegoError.guardRejected.message) := by
  obtain ⟨engine, built⟩ := build_probe
  have leaves := leavesTarget_probe
  obtain ⟨bound, artifact, found, called⟩ := call_of_build_probe built
  obtain ⟨unit, member, named, compiled⟩ := unit_of_find? built found
  have taken : Target.cloudAsset.review? Asset.bucket = some Asset.bucket.envelope := rfl
  have held : (evaluationInput Asset.bucket.envelope bound.constraint).field? "review" =
      some Asset.bucket.envelope := rfl
  obtain ⟨verdicts, next, asked⟩ := ask_probe member named (mapError_eq_ok.1 compiled) taken held
  obtain ⟨-, -, -, -, guarded⟩ := review_passesGuard
  obtain ⟨-, engines⟩ := guarded _ _ _ _ Rego.Machine.follows
  obtain ⟨reviews, calls⟩ := engines _ _ engine built leaves
  obtain rfl := (reviews .cloudAsset Asset.bucket _ taken _ artifact found bound.constraint).1 _ _ _
    rfl asked
  exact ⟨engine, _, _, _, Rego.Machine.follows, built, leaves, called, rfl, asked,
    calls Signal.quiet Asset.bucket.envelope _ called⟩

end Engine

end PolicyReview
