import PolicyReview.Engine
import PolicyReview.Proofs.Engine.Binding
import PolicyReview.Proofs.Engine.Compilation

/-! Construction of an engine. It fails exactly when a document of the library is defective or a
unit does not compile, and then with every error: those of the templates, those of the constraints
and those of the units, each in their order. -/

namespace PolicyReview

/-- A constraint whose parameters are valid under the template of its kind and whose patterns are
all globs. -/
structure Constraint.Sound (schemas : Schema.Compiler) (templates : List Template)
    (constraint : Constraint) : Prop where
  parameters : ∃ template parameters, templates.find? (·.kind = constraint.kind) = some template ∧
    schemas.parameters template.schema = .ok parameters ∧
    parameters constraint.spec.parameters = []
  patterns : ∀ pattern ∈ constraint.spec.matchSpec.target ++ constraint.spec.matchSpec.exclude,
    ∃ glob, Glob.parse pattern = .ok glob

/-- A library none of whose documents is defective, by itself or beside the others. -/
structure PolicyLibrary.Sound (schemas : Schema.Compiler) (library : PolicyLibrary) : Prop where
  templates : ∀ template ∈ library.templates, template.Sound schemas
  kinds : (library.templates.map (·.kind)).Nodup
  constraints : ∀ constraint ∈ library.constraints, constraint.Sound schemas library.templates
  names : (library.constraints.map Constraint.qualifiedName).Nodup

namespace PolicyLibrary

variable {Artifact : Type} {schemas : Schema.Compiler} {runtime : Runtime Artifact}
  {library : PolicyLibrary}
  {engine : Engine Artifact} {errors : PolicyErrors}

/-- What is wrong with the documents of a library: templates first, then constraints. -/
def documentFaults (schemas : Schema.Compiler) (library : PolicyLibrary) : PolicyErrors :=
  (withEarlier [] library.templates).flatMap (Registry.registrationFaults schemas) ++
    (withEarlier [] library.constraints).flatMap (Binding.faults schemas library.templates)

/-- Everything that is wrong with a library under a schema compiler and a runtime. -/
def faults (schemas : Schema.Compiler) (runtime : Runtime Artifact) (library : PolicyLibrary) :
    PolicyErrors :=
  library.documentFaults schemas ++
    (Engine.units schemas library).filterMap (Compilation.fault runtime)

theorem parameterFaults_eq_nil {template : Template} {constraint : Constraint}
    (sound : template.Sound schemas) : template.parameterFaults schemas constraint = [] ↔
      ∃ parameters, schemas.parameters template.schema = .ok parameters ∧
        parameters constraint.spec.parameters = [] := by
  obtain ⟨parameters, compiled⟩ := sound.schema
  simp only [Template.parameterFaults, compiled, Except.ok.injEq, exists_eq_left']
  cases parameters constraint.spec.parameters <;> simp

theorem constraintFaults_eq_nil {templates : List Template} {constraint : Constraint}
    (sound : ∀ template ∈ templates, template.Sound schemas) :
    constraint.faults schemas templates = [] ↔ constraint.Sound schemas templates := by
  unfold Constraint.faults
  cases found : templates.find? (·.kind = constraint.kind) with
  | none =>
    refine iff_of_false (by simp) fun valid => ?_
    obtain ⟨_, _, same, _⟩ := valid.parameters
    rw [found] at same
    cases same
  | some template =>
    have here := sound template (List.mem_of_find?_eq_some found)
    simp only [Template.faults_eq_nil.2 here, if_true]
    rw [List.append_eq_nil_iff, parameterFaults_eq_nil here, Constraint.globFaults_eq_nil]
    constructor
    · rintro ⟨⟨parameters, compiled, valid⟩, patterns⟩
      exact ⟨⟨template, parameters, found, compiled, valid⟩, patterns⟩
    · rintro ⟨⟨other, parameters, same, compiled, valid⟩, patterns⟩
      obtain rfl : template = other := Option.some.inj (found.symm.trans same)
      exact ⟨⟨parameters, compiled, valid⟩, patterns⟩

theorem documentFaults_eq_nil : library.documentFaults schemas = [] ↔ library.Sound schemas := by
  have registered : ∀ entry : List Template × Template,
      Registry.registrationFaults schemas entry = [] ↔
        entry.1.any (·.kind = entry.2.kind) = false ∧ entry.2.Sound schemas := by
    intro entry
    rw [← Template.faults_eq_nil, Registry.registrationFaults]
    cases entry.1.any (·.kind = entry.2.kind) <;> simp
  have bound : ∀ entry : List Constraint × Constraint,
      Binding.faults schemas library.templates entry = [] ↔
        entry.1.any (·.qualifiedName = entry.2.qualifiedName) = false ∧
          entry.2.faults schemas library.templates = [] := by
    intro entry
    rw [Binding.faults]
    cases entry.1.any (·.qualifiedName = entry.2.qualifiedName) <;> simp
  rw [documentFaults, List.append_eq_nil_iff, List.flatMap_eq_nil_iff, List.flatMap_eq_nil_iff]
  simp only [registered, bound, forall_and]
  rw [nodup_map_iff_withEarlier, nodup_map_iff_withEarlier,
    forall_withEarlier (Template.Sound schemas),
    forall_withEarlier fun constraint : Constraint =>
      constraint.faults schemas library.templates = []]
  constructor
  · rintro ⟨⟨⟨kinds, _⟩, templates⟩, ⟨names, _⟩, constraints⟩
    exact ⟨templates, kinds, fun constraint member =>
      (constraintFaults_eq_nil templates).1 (constraints constraint member), names⟩
  · rintro ⟨templates, kinds, constraints, names⟩
    exact ⟨⟨⟨kinds, by simp⟩, templates⟩, ⟨names, by simp⟩, fun constraint member =>
      (constraintFaults_eq_nil templates).2 (constraints constraint member)⟩

theorem not_mem_registrationFaults {templates : List Template} {name field token : String}
    {index : Nat} : .invalidGlob name field index token ∉
      (withEarlier [] templates).flatMap (Registry.registrationFaults schemas) := by
  rw [List.mem_flatMap]
  rintro ⟨⟨earlier, template⟩, _, member⟩
  simp only [Registry.registrationFaults] at member
  split at member
  · simp at member
  simp only [Template.faults, List.mem_append, List.mem_flatMap] at member
  rcases member with (schema | count) | ⟨binding, _, resolved⟩
  · unfold Template.schemaFaults at schema
    split at schema <;> simp at schema
  · unfold Template.countFaults at count
    split at count <;> simp at count
  · simp only [Template.bindingFaults] at resolved
    split at resolved
    · simp at resolved
    · split at resolved <;> simp at resolved

def registry (schemas : Schema.Compiler) (library : PolicyLibrary) : Registry :=
  (Registry.ofTemplates schemas library.templates).1

def bindings (schemas : Schema.Compiler) (library : PolicyLibrary) : Binding.Progress :=
  Binding.bindAll (library.registry schemas) (Registry.ofTemplates schemas library.templates).2
    library.constraints

def pieces (schemas : Schema.Compiler) (library : PolicyLibrary) : List (Target × CompileUnit) :=
  Compilation.units (library.registry schemas) library.modules (library.bindings schemas).table

theorem registry_reflects (schemas : Schema.Compiler) (library : PolicyLibrary) :
    (library.registry schemas).Reflects schemas library.templates :=
  Registry.ofTemplates_reflects schemas library.templates

theorem bindings_reflects (schemas : Schema.Compiler) (library : PolicyLibrary) :
    (library.bindings schemas).Reflects schemas (library.registry schemas) library.templates
      ((withEarlier [] library.templates).flatMap (Registry.registrationFaults schemas))
      library.constraints := by
  rw [bindings, Registry.ofTemplates_errors]
  exact Binding.bindAll_reflects (library.registry_reflects schemas)
    (fun _ _ _ _ => not_mem_registrationFaults) library.constraints

theorem bindings_entries (schemas : Schema.Compiler) (library : PolicyLibrary) :
    (library.bindings schemas).table.entries = (withEarlier [] library.constraints).flatMap
      (Binding.boundAfter (library.registry schemas)) := by
  rw [bindings, Registry.ofTemplates_errors]
  exact Binding.bindAll_entries (library.registry_reflects schemas)
    (fun _ _ _ _ => not_mem_registrationFaults) library.constraints

theorem units_eq (schemas : Schema.Compiler) (library : PolicyLibrary) :
    Engine.units schemas library = (library.pieces schemas).map (·.2) := rfl

theorem build_eq (schemas : Schema.Compiler) (runtime : Runtime Artifact)
    (library : PolicyLibrary) :
    Engine.build schemas runtime library = PolicyErrors.orValue (library.faults schemas runtime)
      { runtime
        table := (library.bindings schemas).table
        artifacts := (Compilation.compileAll runtime (library.pieces schemas)).1 } := by
  rw [faults, documentFaults, ← (library.bindings_reflects schemas).errors, units_eq,
    ← Compilation.compileAll_errors]
  rfl

theorem faults_eq_nil : library.faults schemas runtime = [] ↔ library.Sound schemas ∧
    ∀ unit ∈ Engine.units schemas library, ∃ artifact, runtime.compile unit = .ok artifact := by
  rw [faults, List.append_eq_nil_iff, documentFaults_eq_nil, List.filterMap_eq_nil_iff]
  simp only [Compilation.fault_eq_none]

theorem build_eq_ok : Engine.build schemas runtime library = .ok engine ↔
    library.faults schemas runtime = [] ∧
    { runtime
      table := (library.bindings schemas).table
      artifacts := (Compilation.compileAll runtime (library.pieces schemas)).1 } = engine := by
  rw [build_eq, PolicyErrors.orValue_eq_ok]

/-- Building fails exactly for a defective document or a unit that does not compile, and then
with all faults in order; the units come by kind and then in the order of the bindings. -/
theorem build_faults (schemas : Schema.Compiler) (runtime : Runtime Artifact)
    (library : PolicyLibrary) :
    (∀ errors, Engine.build schemas runtime library = .error errors ↔
      errors = library.faults schemas runtime ∧ errors ≠ []) ∧
    ((∃ errors, Engine.build schemas runtime library = .error errors) ↔ ¬library.Sound schemas ∨
      ∃ unit ∈ Engine.units schemas library, ∃ error, runtime.compile unit = .error error) ∧
    (Engine.units schemas library).map (fun unit => (unit.template, unit.target)) =
      ((Registry.accepted schemas library.templates).mergeSort fun first second =>
        first.kind ≤ second.kind).flatMap fun template =>
        template.targets.map fun binding => (template.kind, binding.target) := by
  have failed : ∀ errors, Engine.build schemas runtime library = .error errors ↔
      errors = library.faults schemas runtime ∧ errors ≠ [] := by
    intro errors
    rw [build_eq, PolicyErrors.orValue_eq_error, eq_comm]
  refine ⟨failed, ?_, Compilation.units_order (library.registry_reflects schemas)⟩
  have refused : ∀ unit : CompileUnit, (¬∃ artifact, runtime.compile unit = .ok artifact) ↔
      ∃ error, runtime.compile unit = .error error := by
    intro unit
    cases runtime.compile unit <;> simp
  calc (∃ errors, Engine.build schemas runtime library = .error errors)
      ↔ library.faults schemas runtime ≠ [] := by simp [failed]
    _ ↔ ¬(library.Sound schemas ∧ ∀ unit ∈ Engine.units schemas library,
          ∃ artifact, runtime.compile unit = .ok artifact) := not_congr faults_eq_nil
    _ ↔ _ := by
      rw [not_and_or]
      simp only [not_forall, exists_prop, refused]

end PolicyLibrary

end PolicyReview
