import PolicyReview.Rego.Machine
import PolicyReview.Proofs.Rego.Preamble
import PolicyReview.Proofs.Rego.Reference

/-! The interpreter of a part of the language follows that part. A program keeps the modules that were
loaded, so that a rule with the only definition in a package, whose conditions are tests that the
input passes, is evaluated to true. -/

namespace PolicyReview.Rego

/-! Tests are told apart by their texts. -/

theorem Kind.length_test (kind : Kind) : kind.test.toList.length = 9 := by
  cases kind <;> decide

theorem Kind.eq_of_test {first second : Kind}
    (same : first.test.toList = second.test.toList) : first = second := by
  cases first <;> cases second <;> revert same <;> decide

namespace Test

theorem notMem_of_isName {name : String} (proper : IsName name) : '.' ∉ name.toList := by
  intro point
  have identifier := proper.1
  cases whole : name.toList with
  | nil => simp [whole] at point
  | cons c cs =>
    rw [whole, AliasTable.isIdentifier, Bool.and_eq_true, List.all_eq_true] at identifier
    rw [whole] at point
    rcases List.mem_cons.1 point with rfl | inside
    · exact absurd identifier.1 (by decide)
    · exact absurd (identifier.2 _ inside) (by decide)

theorem intercalate_injective {first second : List String}
    (one : ∀ name ∈ first, IsName name) (two : ∀ name ∈ second, IsName name)
    (same : String.intercalate "." ("input" :: first) =
      String.intercalate "." ("input" :: second)) : first = second := by
  have split {path : List String} (proper : ∀ name ∈ path, IsName name) :
      (String.intercalate "." ("input" :: path)).toList.splitOn '.' =
        ("input" :: path).map String.toList := by
    rw [String.toList_intercalate]
    refine List.splitOn_intercalate '.' (fun part member => ?_) (by simp)
    obtain ⟨name, inside, rfl⟩ := List.mem_map.1 member
    rcases List.mem_cons.1 inside with rfl | later
    · decide
    · exact notMem_of_isName (proper name later)
  have parts := (split one).symm.trans ((congrArg (·.toList.splitOn '.') same).trans (split two))
  exact (List.cons.inj ((List.map_injective_iff.2 fun _ _ => String.toList_injective) parts)).2

theorem text_injective {first second : Test} (one : first.IsProper) (two : second.IsProper)
    (same : first.text = second.text) : first = second := by
  have whole := congrArg String.toList same
  simp only [text, String.append_assoc] at whole
  rw [String.toList_append, String.toList_append (s := second.kind.test)] at whole
  obtain ⟨tested, rest⟩ := List.append_inj whole
    (first.kind.length_test.trans second.kind.length_test.symm)
  have kind : first.kind = second.kind := Kind.eq_of_test tested
  simp only [String.toList_append, List.append_cancel_left_eq, List.append_cancel_right_eq,
    String.toList_inj] at rest
  have path : first.path = second.path := intercalate_injective one two rest
  cases first
  cases second
  cases kind
  cases path
  rfl

end Test

/-! Tests as conditions. -/

theorem Expr.foldl_extend (path : List Expr) (names : List String) :
    names.foldl (fun base name => Expr.extend base (.ofText name))
      (.reference (.name "input") path) =
        .reference (.name "input") (path ++ names.map .ofText) := by
  induction names generalizing path with
  | nil => rw [List.map_nil, List.append_nil, List.foldl_nil]
  | cons name names ih =>
    rw [List.foldl_cons, Expr.extend, ih, List.map_cons, List.append_assoc, List.singleton_append]

theorem Expr.ofNames_cons (name : String) (names : List String) :
    Expr.ofNames (name :: names) = .reference (.name "input") ((name :: names).map .ofText) :=
  foldl_extend [.ofText name] names

theorem Expr.keys_ofNames (names : List String) : (Expr.ofNames names).keys = [] := by
  cases names with
  | nil => rfl
  | cons name names =>
    rw [ofNames_cons, keys, keys, List.nil_append]
    induction name :: names with
    | nil => rfl
    | cons name names ih =>
      rw [List.map_cons]
      exact ih

theorem Expr.reads_ofNames (names : List String) : (Expr.ofNames names).reads = ["input"] := by
  cases names with
  | nil => rfl
  | cons name names =>
    have read : ∀ names : List String, readsOfPath (names.map .ofText) = [] := by
      intro names
      induction names with
      | nil => rfl
      | cons name names ih => exact ih
    rw [ofNames_cons, reads, reads, read]
    rfl

theorem Test.binds_condition (test : Test) : test.condition.binds = [] := by
  change [] ++ ((Expr.ofNames test.path).keys ++ []) = []
  rw [Expr.keys_ofNames]
  rfl

/-- Conditions that bind nothing stay in the order in which they are written. -/
theorem Rule.arrange_of_binds {rule : Rule} (free : ∀ condition ∈ rule.body, condition.binds = []) :
    rule.arrange = rule := by
  have kept (introduced given : List String) (body : List Condition) :
      arrangeFrom introduced [] body.length given body = body := by
    induction body generalizing given with
    | nil => rfl
    | cons first rest ih =>
      have ready : (first.needs introduced).all
          (fun name => given.contains name || !([] : List String).contains name) = true := by
        simp
      rw [List.length_cons, arrangeFrom]
      simp only [takeFirst?, ready, if_true, Option.getD_some, ih]
  rw [arrange, List.flatMap_eq_nil_iff.2 free, kept]

namespace Kind

def builtin : Kind → Builtin
  | string => .isString
  | object => .isObject

theorem name_builtin (kind : Kind) : kind.builtin.name = kind.test := by
  cases kind <;> rfl

theorem apply_builtin {kind : Kind} {value : Json} (fits : kind.Fits value) :
    kind.builtin.apply [.ofJson value] = .ok (.bool true) := by
  cases kind <;> obtain ⟨_, rfl⟩ := fits <;> rfl

end Kind

namespace Scope

variable {scope : Scope} {test : Test} {input : Json}

theorem satisfy_condition (plain : scope.functionPath? [test.kind.test] = none)
    (given : scope.input = .ofJson input) (passes : test.Passes input) :
    scope.satisfy [] test.condition = .ok [[]] := by
  obtain ⟨value, reached, fits⟩ := passes
  have argument : scope.solve [] (.ofNames test.path) = .ok [([], .value (.ofJson value))] := by
    cases path : test.path with
    | nil =>
      rw [path] at reached
      obtain rfl := Option.some.inj reached
      exact (solve_input rfl).trans (by rw [given])
    | cons name path =>
      rw [path] at reached
      rw [Expr.ofNames_cons]
      exact solve_reference rfl given reached
  rw [← test.kind.name_builtin] at plain
  rw [Test.condition, satisfy, ← test.kind.name_builtin,
    solve_call plain argument (Kind.apply_builtin fits)]
  rfl

theorem satisfyAll_tests {tests : List Test}
    (each : ∀ test ∈ tests, scope.satisfy [] test.condition = .ok [[]]) :
    scope.satisfyAll [] (tests.map Test.condition) = .ok [[]] := by
  induction tests with
  | nil => rfl
  | cons test tests ih =>
    obtain ⟨first, later⟩ := List.forall_mem_cons.1 each
    rw [List.map_cons, satisfyAll, first, ok_bind, collect_singleton, ih later]

theorem ruleValues_complete {rule : Rule} {value : Value}
    (head : rule.head = .complete (.literal value))
    (holds : scope.satisfyAll [] rule.body = .ok [[]]) :
    scope.ruleValues rule none = .ok [value] := by
  unfold ruleValues
  rw [head]
  dsimp only
  rw [ok_bind, collect_singleton, holds, ok_bind, collect_singleton]
  rfl

end Scope

/-! The language of the interpreter. -/

namespace Machine

theorem arrange_guard (name : String) (tests : List Test) :
    (guard name tests).arrange = guard name tests := by
  refine Rule.arrange_of_binds fun condition member => ?_
  obtain ⟨test, -, rfl⟩ := List.mem_map.1 member
  exact test.binds_condition

/-- The module has one rule of a name, which is true under tests, and hides none of the functions
that test. -/
structure Guards (module : Module) (rule : String) (tests : List Test) : Prop where
  only : module.rules.filter (·.name = rule) = [guard rule tests]
  proper : ∀ test ∈ tests, test.IsProper
  undefined : ∀ kind : Kind, module.rules.filter (·.name = kind.test) = []
  unnamed : ∀ kind : Kind, module.imports.lookup kind.test = none

/-- The meaning of sources and conditions for the interpreter. -/
def language : Language where
  Adds source package := ∃ module, Module.read? source = some module ∧
    dataText module.package = package ∧ module.rules ≠ []
  Defines source package rule conditions := ∃ module tests, Module.read? source = some module ∧
    dataText module.package = package ∧
    dataPath? (package ++ "." ++ rule) = some (module.package ++ [rule]) ∧
    Guards module rule tests ∧ conditions = tests.map Test.text
  IsCondition text := ∃ test : Test, test.IsProper ∧ test.text = text
  Holds text input := ∃ test : Test, test.IsProper ∧ test.text = text ∧ test.Passes input

theorem addPolicy_eq_ok {source : String} {module : Module} (read : Module.read? source = some module)
    (machine : Machine) (name : String) : interpreter.addPolicy machine name source =
      .ok ({ machine with program := machine.program ++ [module.arrange] },
        dataText module.package) := by
  have added : machine.addPolicy source = .ok ({ machine with
      program := machine.program ++ [module.arrange] }, dataText module.package) := by
    rw [addPolicy, read]
  exact added

theorem load_pair {unit : CompileUnit} {first last : PolicyModule} {one two : Module}
    (modules : unit.modules = [first, last]) (role : last.role = .template)
    (preamble : Module.read? (qualifyImports first.source) = some one)
    (template : Module.read? (qualifyImports last.source) = some two) :
    interpreter.load unit = .ok {
      machine := { program := [one.arrange, two.arrange] }, package := dataText two.package } := by
  have all : interpreter.loadFrom interpreter.fresh none [first, last] =
      .ok ({ program := [one.arrange, two.arrange] }, some (dataText two.package)) := by
    rw [Interpreter.loadFrom, addPolicy_eq_ok preamble]
    dsimp only
    rw [Interpreter.loadFrom, addPolicy_eq_ok template]
    dsimp only
    rw [if_pos role]
    rfl
  rw [Interpreter.load, modules, all]
  rfl

def programOf (sources : List (String × String)) : Program :=
  sources.filterMap fun source => (Module.read? source.2).map Module.arrange

theorem program_of_loads {sources : List (String × String)} {machine : Machine}
    (loads : interpreter.Loads sources machine) : machine.program = programOf sources := by
  induction loads with
  | fresh => rfl
  | add _ added ih =>
    change addPolicy _ _ = _ at added
    rw [addPolicy] at added
    split at added
    next module read =>
      obtain ⟨rfl, -⟩ := Prod.mk.inj (Except.ok.inj added)
      simp [programOf, read, ih]
    next => cases added

variable {module : Module} {rule : String} {tests : List Test} {input : Json}

theorem definitions_arrange (module : Module) (name : String) :
    Program.definitions [module.arrange] (module.package ++ [name]) =
      (module.rules.filter (·.name = name)).map fun rule => (module.arrange, rule.arrange) := by
  have own (rule : Rule) : (module.arrange.path rule.arrange = module.package ++ [name]) ↔
      rule.name = name := by
    simp [Module.path, Module.arrange, Rule.arrange]
  rw [Program.definitions, List.flatMap_singleton]
  change ((module.rules.map Rule.arrange).filter _).map _ = _
  rw [List.filter_map, List.map_map]
  congr 1
  exact List.filter_congr fun rule _ => decide_eq_decide.2 (own rule)

/-- Sources that add no rules to a package define nothing in it. -/
theorem definitions_of_leaves {sources : List (String × String)} {package : List String}
    (leave : ∀ source ∈ sources, ¬language.Adds source.2 (dataText package)) (name : String) :
    Program.definitions (programOf sources) (package ++ [name]) = [] := by
  rw [Program.definitions, List.flatMap_eq_nil_iff]
  intro module member
  obtain ⟨source, inside, made⟩ := List.mem_filterMap.1 member
  obtain ⟨read, found, rfl⟩ := Option.map_eq_some_iff.1 made
  rw [List.map_eq_nil_iff, List.filter_eq_nil_iff]
  intro rule defined same
  have path : read.package ++ [rule.name] = package ++ [name] := of_decide_eq_true same
  refine leave source inside ⟨read, found, ?_, fun none => ?_⟩
  · rw [List.append_inj_left' path rfl]
  · rw [Module.arrange, none] at defined
    cases defined

theorem definitions_programOf {earlier later : List (String × String)} {name source : String}
    (read : Module.read? source = some module)
    (leave : ∀ other ∈ earlier ++ later, ¬language.Adds other.2 (dataText module.package))
    (rule : String) :
    Program.definitions (programOf (earlier ++ (name, source) :: later)) (module.package ++ [rule]) =
      (module.rules.filter (·.name = rule)).map fun rule => (module.arrange, rule.arrange) := by
  have parts : programOf (earlier ++ (name, source) :: later) =
      programOf earlier ++ ([module.arrange] ++ programOf later) := by
    simp [programOf, read]
  have before := definitions_of_leaves (fun other inside =>
    leave other (List.mem_append_left later inside)) rule
  have after := definitions_of_leaves (fun other inside =>
    leave other (List.mem_append_right earlier inside)) rule
  have own := definitions_arrange module rule
  rw [Program.definitions] at before after own ⊢
  rw [parts, List.flatMap_append, List.flatMap_append, before, own, after, List.nil_append,
    List.append_nil]

/-- A module that hides no test has the tests as built-in functions. -/
theorem functionPath?_test {scope : Scope} (guards : Guards module rule tests)
    (here : scope.module = module.arrange)
    (defined : ∀ name, scope.program.definitions (module.package ++ [name]) =
      (module.rules.filter (·.name = name)).map fun rule => (module.arrange, rule.arrange))
    (kind : Kind) : scope.functionPath? [kind.test] = none := by
  have undefined : scope.program.defines (module.package ++ [kind.test]) = false := by
    rw [Program.defines, defined, guards.undefined]
    rfl
  have unnamed : scope.program.globalPath? scope.module kind.test = none := by
    have other : ¬(kind.test = "input" ∨ kind.test = "data") := by cases kind <;> decide
    rw [Program.globalPath?, if_neg other, here]
    change (if scope.program.defines (module.package ++ [kind.test]) = true then _
      else module.imports.lookup kind.test) = none
    rw [undefined, guards.unnamed]
    rfl
  rw [Scope.functionPath?, unnamed]

theorem valueAt_guard {program : Program} (guards : Guards module rule tests)
    (defined : ∀ name, program.definitions (module.package ++ [name]) =
      (module.rules.filter (·.name = name)).map fun rule => (module.arrange, rule.arrange))
    (passes : ∀ test ∈ tests, test.Passes input) (depth : Nat) :
    program.valueAt (.ofJson input) (depth + 1) (module.package ++ [rule]) none =
      .ok (some (.bool true)) := by
  rw [Program.valueAt]
  dsimp only
  rw [defined, guards.only, List.map_singleton, arrange_guard, collect_singleton,
    Scope.ruleValues_complete rfl]
  · rfl
  · refine Scope.satisfyAll_tests fun test member => ?_
    exact Scope.satisfy_condition (functionPath?_test guards rfl defined _) rfl (passes test member)

theorem isSafe_of_query {program : Program} {input : Value} {path : List String}
    {value : Option Value} (found : program.query input path = .ok value) :
    program.isSafe = true := by
  rw [Program.query] at found
  cases safe : program.isSafe with
  | true => rfl
  | false =>
    rw [safe] at found
    cases found

theorem query_guard {program : Program} (safe : program.isSafe = true)
    (guards : Guards module rule tests)
    (defined : ∀ name, program.definitions (module.package ++ [name]) =
      (module.rules.filter (·.name = name)).map fun rule => (module.arrange, rule.arrange))
    (passes : ∀ test ∈ tests, test.Passes input) :
    program.query (.ofJson input) (module.package ++ [rule]) = .ok (some (.bool true)) := by
  have known : program.defines (module.package ++ [rule]) = true := by
    rw [Program.defines, defined, guards.only]
    rfl
  rw [Program.query, safe, known]
  exact valueAt_guard guards defined passes _

theorem query_eq_ok {machine : Machine} {text : String} {path : List String} {value : Option Value}
    (named : dataPath? text = some path) :
    machine.query text = .ok value ↔ machine.program.query machine.input path = .ok value := by
  rw [query, named]
  exact mapError_eq_ok

/-! The laws. -/

theorem rule_holds {earlier later : List (String × String)} {machine next : Machine}
    {name source package rule : String} {conditions : List String} {value : Value}
    {answers : List (Option Value)}
    (loads : interpreter.Loads (earlier ++ (name, source) :: later) machine)
    (defines : language.Defines source package rule conditions)
    (leave : ∀ other ∈ earlier ++ later, ¬language.Adds other.2 package)
    (converted : interpreter.ofJson input = .ok value)
    (hold : ∀ condition ∈ conditions, language.Holds condition input)
    (asked : interpreter.query (interpreter.setInput machine value) (package ++ "." ++ rule) =
      .ok (answers, next)) :
    ∃ answer, answers = [some answer] ∧ interpreter.toJson answer = .ok (.bool true) := by
  obtain ⟨module, tests, read, rfl, named, guards, rfl⟩ := defines
  obtain rfl := Except.ok.inj converted
  have passes : ∀ test ∈ tests, test.Passes input := by
    intro test member
    obtain ⟨other, proper, same, passes⟩ := hold _ (List.mem_map_of_mem member)
    rwa [Test.text_injective proper (guards.proper test member) same] at passes
  obtain ⟨found, queried, same⟩ := map_eq_ok.1 asked
  obtain ⟨rfl, -⟩ := Prod.mk.inj same
  rw [query_eq_ok named] at queried
  change machine.program.query (.ofJson input) _ = _ at queried
  rw [program_of_loads loads] at queried
  have held := query_guard (isSafe_of_query queried) guards (definitions_programOf read leave) passes
  obtain rfl := Except.ok.inj (queried.symm.trans held)
  exact ⟨_, rfl, rfl⟩

theorem guards_preamble (name : String) (bound : Target.BoundSet) {tests : List Test}
    (proper : ∀ test ∈ tests, test.IsProper) :
    Guards (preambleModule name bound tests) "valid_review" tests where
  only := rfl
  proper := proper
  undefined kind := by cases kind <;> rfl
  unnamed _ := rfl

theorem dataPath?_guard : dataPath? guardQuery = some (["target"] ++ ["valid_review"]) := by
  decide

theorem preamble_defines {name : String} {bound : Target.BoundSet} {conditions : List String}
    (some : conditions ≠ []) (each : ∀ condition ∈ conditions, language.IsCondition condition) :
    language.Defines (Target.renderPreamble name bound conditions) "data.target" "valid_review"
      conditions := by
  obtain ⟨tests, proper, rfl⟩ : ∃ tests : List Test, (∀ test ∈ tests, test.IsProper) ∧
      tests.map Test.text = conditions := by
    clear some
    induction conditions with
    | nil => exact ⟨[], nofun, rfl⟩
    | cons condition rest ih =>
      obtain ⟨⟨test, first, rfl⟩, others⟩ := List.forall_mem_cons.1 each
      obtain ⟨tests, later, rfl⟩ := ih others
      exact ⟨test :: tests, List.forall_mem_cons.2 ⟨first, later⟩, rfl⟩
  have more : tests ≠ [] := fun none => some (by rw [none]; rfl)
  exact ⟨preambleModule name bound tests, tests, read?_preamble name bound more proper, rfl,
    dataPath?_guard, guards_preamble name bound proper, rfl⟩

theorem follows : interpreter.Follows language where
  test_isCondition test proper := ⟨test, proper, rfl⟩
  test_holds test _ proper passes := ⟨test, proper, rfl, passes⟩
  preamble_defines _ _ _ := preamble_defines
  rule_holds := rule_holds

/-! Preambles as programs. -/

theorem arrange_preamble (name : String) (bound : Target.BoundSet) (tests : List Test) :
    (preambleModule name bound tests).arrange = preambleModule name bound tests := by
  change ({ package := ["target"], rules := [nameRule name, boundRule bound,
    (guard "valid_review" tests).arrange, constraintRule] } : Module) = _
  rw [arrange_guard]
  rfl

/-- The rules of a preamble read nothing but the input, each other and their own variables. -/
theorem isSafe_preamble (name : String) (bound : Target.BoundSet) (tests : List Test)
    (others : Program) : (preambleModule name bound tests).rules.all
      (Rule.isSafe (preambleModule name bound tests :: others)
        (preambleModule name bound tests)) = true := by
  have named : Rule.isSafe (preambleModule name bound tests :: others)
      (preambleModule name bound tests) (nameRule name) = true := rfl
  have listed : Rule.isSafe (preambleModule name bound tests :: others)
      (preambleModule name bound tests) (boundRule bound) = true := by
    obtain ⟨reads, keys⟩ := bound.reads_expr
    rw [Rule.isSafe, Rule.reads]
    change ([] ++ bound.expr.reads ++ bound.expr.keys ++ []).all _ = true
    rw [reads, keys]
    rfl
  have reviewed : Rule.isSafe (preambleModule name bound tests :: others)
      (preambleModule name bound tests) (reviewRule tests) = true := by
    rw [Rule.isSafe, List.all_eq_true]
    intro text read
    obtain ⟨condition, member, inside⟩ := List.mem_flatMap.1 read
    obtain ⟨test, -, rfl⟩ := List.mem_map.1 member
    have reads : test.condition.expr.reads = (Expr.ofNames test.path).reads ++ [] := rfl
    rw [reads, Expr.reads_ofNames, List.append_nil, List.mem_singleton] at inside
    rw [inside, Bool.or_eq_true]
    exact .inr rfl
  have matching : Rule.isSafe (preambleModule name bound tests :: others)
      (preambleModule name bound tests) constraintRule = true := by
    have leads : Program.globalPath? (preambleModule name bound tests :: others)
        (preambleModule name bound tests) "bound_constraints" =
          some ["data", "target", "bound_constraints"] := by
      rw [Program.globalPath?, if_neg (by decide)]
      exact if_pos rfl
    have reads : constraintRule.reads =
        ["kind", "name", "bound_constraints", "bound_name", "name"] := rfl
    have locals : constraintRule.locals = ["kind", "name", "bound_name", "kind"] := rfl
    rw [Rule.isSafe, reads, locals]
    simp [leads]
  change (Rule.isSafe _ _ (nameRule name) && (Rule.isSafe _ _ (boundRule bound) &&
    (Rule.isSafe _ _ (reviewRule tests) && (Rule.isSafe _ _ constraintRule && true)))) = true
  rw [named, listed, reviewed, matching]
  rfl

end Machine

end PolicyReview.Rego
