import PolicyReview.Engine.Registry

/-! Registration of templates. The first template of a kind decides the kind: it is registered when
it has no fault of its own and rejected otherwise. Faults are found in template order. -/

namespace PolicyReview

/-- Each item of a list with the items before it, of which `earlier` are no part of the list. -/
def withEarlier {α : Type} (earlier : List α) : List α → List (List α × α)
  | [] => []
  | item :: rest => (earlier, item) :: withEarlier (earlier ++ [item]) rest

theorem withEarlier_append {α : Type} (earlier first second : List α) :
    withEarlier earlier (first ++ second) =
      withEarlier earlier first ++ withEarlier (earlier ++ first) second := by
  induction first generalizing earlier with
  | nil => simp [withEarlier]
  | cons item rest ih => simp [withEarlier, ih]

theorem withEarlier_concat {α : Type} (items : List α) (item : α) :
    withEarlier [] (items ++ [item]) = withEarlier [] items ++ [(items, item)] := by
  simp [withEarlier_append, withEarlier]

theorem mem_withEarlier {α : Type} {earlier items : List α} {entry : List α × α} :
    entry ∈ withEarlier earlier items ↔
      ∃ before after, items = before ++ entry.2 :: after ∧ entry.1 = earlier ++ before := by
  induction items generalizing earlier with
  | nil => simp [withEarlier]
  | cons item rest ih =>
    rw [withEarlier, List.mem_cons, ih]
    constructor
    · rintro (rfl | ⟨before, after, split, same⟩)
      · exact ⟨[], rest, rfl, by simp⟩
      · exact ⟨item :: before, after, by simp [split], by simp [same]⟩
    · rintro ⟨before, after, split, same⟩
      cases before with
      | nil =>
        obtain ⟨rfl, rfl⟩ := List.cons.inj split
        exact .inl (Prod.ext (by simpa using same) rfl)
      | cons first before =>
        obtain ⟨rfl, rfl⟩ := List.cons.inj split
        exact .inr ⟨before, after, rfl, by simpa using same⟩

theorem forall_withEarlier {α : Type} (property : α → Prop) {earlier items : List α} :
    (∀ entry ∈ withEarlier earlier items, property entry.2) ↔ ∀ item ∈ items, property item := by
  induction items generalizing earlier with
  | nil => simp [withEarlier]
  | cons item rest ih => rw [withEarlier, List.forall_mem_cons, ih, List.forall_mem_cons]

/-- No item has the key of an item before it, where none of `earlier` has a key of the list. -/
theorem nodup_map_iff_withEarlier {α β : Type} [DecidableEq β] {key : α → β}
    {earlier items : List α} :
    (∀ entry ∈ withEarlier earlier items, entry.1.any (key · = key entry.2) = false) ↔
      (items.map key).Nodup ∧ ∀ item ∈ items, earlier.any (key · = key item) = false := by
  induction items generalizing earlier with
  | nil => simp [withEarlier]
  | cons item rest ih =>
    rw [withEarlier, List.forall_mem_cons, ih, List.map_cons, List.nodup_cons,
      List.forall_mem_cons]
    simp only [List.any_append, Bool.or_eq_false_iff, List.any_cons, List.any_nil, Bool.or_false,
      decide_eq_false_iff_not, List.mem_map, not_exists, not_and]
    constructor
    · rintro ⟨first, distinct, apart⟩
      exact ⟨⟨fun other member same => (apart other member).2 same.symm, distinct⟩, first,
        fun other member => (apart other member).1⟩
    · rintro ⟨⟨new, distinct⟩, first, apart⟩
      exact ⟨first, distinct, fun other member =>
        ⟨apart other member, fun same => new other member same.symm⟩⟩

namespace PolicyErrors

variable {α : Type} {errors found : PolicyErrors} {value result : α}

theorem orValue_eq_ok : orValue errors value = .ok result ↔ errors = [] ∧ value = result := by
  cases errors <;> simp [orValue]

theorem orValue_eq_error : orValue errors value = .error found ↔ errors = found ∧ found ≠ [] := by
  cases errors with
  | nil => simp [orValue, eq_comm]
  | cons first rest =>
    simp only [orValue, Except.error.injEq]
    exact ⟨fun same => ⟨same, by simp [← same]⟩, And.left⟩

end PolicyErrors

namespace Target

theorem ofName?_eq_some {name : String} {target : Target} :
    ofName? name = some target ↔ target.name = name := by
  constructor
  · intro found
    simpa using List.find?_some found
  · rintro rfl
    cases target <;> rfl

theorem name_injective {first second : Target} (same : first.name = second.name) :
    first = second := by
  have found := ofName?_eq_some.2 same
  rw [ofName?_eq_some.2 rfl] at found
  exact (Option.some.inj found).symm

end Target

namespace Template

def schemaFaults (schemas : Schema.Compiler) (template : Template) : PolicyErrors :=
  match schemas.parameters template.schema with
  | .ok _ => []
  | .error fault => [.schemaViolation template.path [fault]]

def countFaults (template : Template) : PolicyErrors :=
  if template.targets = [] then [.badConfig template.path "template declares no targets"] else []

/-- The fault of a binding after others: its target is not known, or bound by one of them. -/
def bindingFaults (path : String) (entry : List TargetBinding × TargetBinding) : PolicyErrors :=
  let binding := entry.2
  if Target.ofName? binding.target = none then
    [.badConfig path ("unknown target " ++ binding.target)]
  else if entry.1.any (·.target = binding.target) then
    [.badConfig path ("target " ++ binding.target ++ " is bound more than once")]
  else []

/-- What is wrong with a template by itself. -/
def faults (schemas : Schema.Compiler) (template : Template) : PolicyErrors :=
  template.schemaFaults schemas ++ template.countFaults ++
    (withEarlier [] template.targets).flatMap (bindingFaults template.path)

/-- A template whose parameter schema can be used and that binds known targets, at least one and
none of them twice. -/
structure Sound (schemas : Schema.Compiler) (template : Template) : Prop where
  schema : ∃ parameters, schemas.parameters template.schema = .ok parameters
  nonempty : template.targets ≠ []
  known : ∀ binding ∈ template.targets, ∃ target : Target, target.name = binding.target
  distinct : (template.targets.map (·.target)).Nodup

variable {schemas : Schema.Compiler} {template : Template}

theorem schemaFaults_eq_nil : template.schemaFaults schemas = [] ↔
    ∃ parameters, schemas.parameters template.schema = .ok parameters := by
  unfold schemaFaults
  cases schemas.parameters template.schema <;> simp

theorem countFaults_eq_nil : template.countFaults = [] ↔ template.targets ≠ [] := by
  unfold countFaults
  split <;> simp [*]

theorem bindingFaults_eq_nil {path : String} {entry : List TargetBinding × TargetBinding} :
    bindingFaults path entry = [] ↔ (∃ target : Target, target.name = entry.2.target) ∧
      entry.1.any (·.target = entry.2.target) = false := by
  simp only [← Target.ofName?_eq_some, bindingFaults]
  cases Target.ofName? entry.2.target <;>
    cases entry.1.any (·.target = entry.2.target) <;> simp

theorem faults_eq_nil : template.faults schemas = [] ↔ template.Sound schemas := by
  rw [faults, List.append_eq_nil_iff, List.append_eq_nil_iff, schemaFaults_eq_nil,
    countFaults_eq_nil, List.flatMap_eq_nil_iff]
  simp only [bindingFaults_eq_nil, forall_and]
  rw [forall_withEarlier fun binding : TargetBinding => ∃ target : Target,
      target.name = binding.target,
    nodup_map_iff_withEarlier]
  constructor
  · rintro ⟨⟨schema, nonempty⟩, known, distinct, _⟩
    exact ⟨schema, nonempty, known, distinct⟩
  · rintro ⟨schema, nonempty, known, distinct⟩
    exact ⟨⟨schema, nonempty⟩, known, distinct, by simp⟩

end Template

namespace RegisteredTemplate

variable {schemas : Schema.Compiler}

theorem resolveTargets_errors (path : String) (found : List Target) (earlier : List TargetBinding)
    (known : ∀ target : Target, target ∈ found ↔ target.name ∈ earlier.map (·.target))
    (bindings : List TargetBinding) :
    (resolveTargets path found bindings).2 =
      (withEarlier earlier bindings).flatMap (Template.bindingFaults path) := by
  -- The targets found so far grow with the bindings before, so `known` is carried along.
  induction bindings generalizing found earlier with
  | nil => rfl
  | cons binding rest ih =>
    rw [resolveTargets, withEarlier, List.flatMap_cons]
    cases resolved : Target.ofName? binding.target with
    | none =>
      have unnamed : ∀ target : Target, target.name ≠ binding.target := by
        intro target same
        simp [Target.ofName?_eq_some.2 same] at resolved
      have later := ih found (earlier ++ [binding]) (by simp [known, unnamed])
      simp [later, Template.bindingFaults, resolved]
    | some target =>
      have name := Target.ofName?_eq_some.1 resolved
      have named : ∀ other : Target, other.name = binding.target ↔ other = target := by
        intro other
        rw [← name]
        exact ⟨Target.name_injective, congrArg Target.name⟩
      have bound : target ∈ found ↔ earlier.any (·.target = binding.target) = true := by
        simp [known, name]
      by_cases again : target ∈ found
      · have later := ih found (earlier ++ [binding])
          (by simp only [known, named, List.map_append, List.mem_append, List.map_cons,
                List.map_nil, List.mem_singleton]
              intro other
              exact ⟨.inl, fun either => either.elim id fun same => same ▸ (known target).1 again⟩)
        simp [later, Template.bindingFaults, resolved, again, bound.1 again]
      · have later := ih (found ++ [target]) (earlier ++ [binding]) (by simp [known, named])
        simp [later, Template.bindingFaults, resolved, again, ← bound]

theorem resolveTargets_targets (path : String) (found : List Target)
    (bindings : List TargetBinding) (clean : (resolveTargets path found bindings).2 = []) :
    (resolveTargets path found bindings).1.map Target.name =
      found.map Target.name ++ bindings.map (·.target) ∧
    (found.Nodup → (resolveTargets path found bindings).1.Nodup) := by
  induction bindings generalizing found with
  | nil => simp [resolveTargets]
  | cons binding rest ih =>
    rw [resolveTargets] at clean ⊢
    split at clean
    next target resolved =>
      split at clean
      next again => cases clean
      next new =>
        obtain ⟨names, distinct⟩ := ih (found ++ [target]) clean
        simp only [new, if_false]
        refine ⟨?_, fun nodup => distinct ?_⟩
        · simp [names, Target.ofName?_eq_some.1 resolved]
        · simpa [List.nodup_append] using ⟨nodup, fun _ member same => new (same ▸ member)⟩
    next => cases clean

theorem resolveTargets_faults (template : Template) :
    (resolveTargets template.path [] template.targets).2 =
      (withEarlier [] template.targets).flatMap (Template.bindingFaults template.path) :=
  resolveTargets_errors template.path [] [] (by simp) template.targets

theorem ofTemplate_eq (schemas : Schema.Compiler) (template : Template) :
    ofTemplate schemas template = match schemas.parameters template.schema with
      | .error _ => .error (template.faults schemas)
      | .ok parameters => PolicyErrors.orValue (template.faults schemas)
          { template, parameters
            targets := (resolveTargets template.path [] template.targets).1 } := by
  unfold ofTemplate Template.faults Template.schemaFaults Template.countFaults
  rw [← resolveTargets_faults]
  cases schemas.parameters template.schema with
  | error fault => rfl
  | ok parameters =>
    simp only [List.nil_append]
    generalize (if template.targets = [] then _ else _ : PolicyErrors) ++
      (resolveTargets template.path [] template.targets).2 = errors
    cases errors <;> rfl

theorem faults_ne_nil {template : Template} {fault : String}
    (refused : schemas.parameters template.schema = .error fault) :
    template.faults schemas ≠ [] := by
  simp [Template.faults, Template.schemaFaults, refused]

theorem ofTemplate_eq_error {template : Template} {errors : PolicyErrors} :
    ofTemplate schemas template = .error errors ↔
      template.faults schemas = errors ∧ errors ≠ [] := by
  rw [ofTemplate_eq]
  cases compiled : schemas.parameters template.schema with
  | error fault =>
    have faulty := faults_ne_nil compiled
    simp only [Except.error.injEq]
    exact ⟨fun same => ⟨same, same ▸ faulty⟩, And.left⟩
  | ok parameters => exact PolicyErrors.orValue_eq_error

theorem ofTemplate_eq_ok {template : Template} {entry : RegisteredTemplate} :
    ofTemplate schemas template = .ok entry ↔
      template.faults schemas = [] ∧ entry.template = template ∧
      schemas.parameters template.schema = .ok entry.parameters ∧
      entry.targets = (resolveTargets template.path [] template.targets).1 := by
  rw [ofTemplate_eq]
  cases compiled : schemas.parameters template.schema with
  | error fault => simp [faults_ne_nil compiled]
  | ok parameters =>
    simp only [PolicyErrors.orValue_eq_ok, Except.ok.injEq]
    constructor
    · rintro ⟨clean, rfl⟩
      exact ⟨clean, rfl, rfl, rfl⟩
    · rintro ⟨clean, rfl, rfl, targets⟩
      exact ⟨clean, by rw [← targets]⟩

/-- A registered template has the targets that its bindings name, each once and at least one. -/
theorem targets_of_ofTemplate {template : Template} {entry : RegisteredTemplate}
    (registered : ofTemplate schemas template = .ok entry) :
    entry.targets.map Target.name = template.targets.map (·.target) ∧ entry.targets.Nodup ∧
      entry.targets ≠ [] := by
  obtain ⟨clean, _, _, targets⟩ := ofTemplate_eq_ok.1 registered
  simp only [Template.faults, List.append_eq_nil_iff, ← resolveTargets_faults] at clean
  obtain ⟨⟨_, counted⟩, resolved⟩ := clean
  obtain ⟨names, distinct⟩ := resolveTargets_targets template.path [] template.targets resolved
  rw [← targets] at names distinct
  refine ⟨names, distinct List.nodup_nil, fun empty => ?_⟩
  rw [empty] at names
  have none : template.targets = [] := by simpa using names.symm
  simp [Template.countFaults, none] at counted

theorem mem_targets {template : Template} {entry : RegisteredTemplate} {target : Target}
    (registered : ofTemplate schemas template = .ok entry) :
    target ∈ entry.targets ↔ template.targets.any (·.target = target.name) = true := by
  obtain ⟨names, _⟩ := targets_of_ofTemplate registered
  have named : target ∈ entry.targets ↔ target.name ∈ template.targets.map (·.target) := by
    rw [← names, List.mem_map]
    constructor
    · intro there
      exact ⟨target, there, rfl⟩
    · rintro ⟨other, there, same⟩
      exact Target.name_injective same ▸ there
  rw [named]
  simp

end RegisteredTemplate

namespace Registry

def registered? (schemas : Schema.Compiler) (entry : List Template × Template) :
    Option RegisteredTemplate :=
  if entry.1.any (·.kind = entry.2.kind) then none
  else (RegisteredTemplate.ofTemplate schemas entry.2).toOption

/-- The registry is the one that the templates lead to: the first template of a kind is registered
or, when it is faulty, rejected, and there is no trace of other kinds. -/
structure Reflects (schemas : Schema.Compiler) (registry : Registry) (templates : List Template) :
    Prop where
  entries_eq : registry.entries = (withEarlier [] templates).filterMap (registered? schemas)
  kinds : (registry.entries.map (·.template.kind)).Nodup
  find?_eq : ∀ kind, registry.find? kind =
    (templates.find? (·.kind = kind)).bind fun template =>
      (RegisteredTemplate.ofTemplate schemas template).toOption
  isRejected_eq : ∀ kind, registry.isRejected kind =
    (templates.find? (·.kind = kind)).any fun template => !(template.faults schemas).isEmpty

def registrationFaults (schemas : Schema.Compiler) (entry : List Template × Template) :
    PolicyErrors :=
  let template := entry.2
  if entry.1.any (·.kind = template.kind) then
    [.badConfig template.path ("duplicate generated kind " ++ template.kind)]
  else template.faults schemas

variable {schemas : Schema.Compiler} {registry : Registry} {templates : List Template}
  {template : Template}

theorem Reflects.known_eq (reflects : registry.Reflects schemas templates) (kind : String) :
    ((registry.find? kind).isSome || registry.isRejected kind) =
      templates.any (·.kind = kind) := by
  rw [reflects.find?_eq, reflects.isRejected_eq, ← List.isSome_find?]
  cases templates.find? (·.kind = kind) with
  | none => rfl
  | some template =>
    cases decided : RegisteredTemplate.ofTemplate schemas template with
    | ok entry => simp [decided, Except.toOption]
    | error errors =>
      obtain ⟨rfl, faulty⟩ := RegisteredTemplate.ofTemplate_eq_error.1 decided
      simp [decided, Except.toOption, faulty]

theorem Reflects.repeated (reflects : registry.Reflects schemas templates)
    (known : templates.any (·.kind = template.kind) = true) :
    registry.Reflects schemas (templates ++ [template]) := by
  have found : ∀ kind, (templates ++ [template]).find? (·.kind = kind) =
      templates.find? (·.kind = kind) := by
    intro kind
    by_cases same : template.kind = kind
    · have decided : (templates.find? (·.kind = kind)).isSome := by
        rw [List.isSome_find?, ← same, known]
      rw [List.find?_append, Option.or_of_isSome decided]
    · simp [List.find?_append, same]
  refine ⟨?_, reflects.kinds, fun kind => ?_, fun kind => ?_⟩
  · simp [withEarlier_concat, reflects.entries_eq, registered?, known]
  · rw [found]
    exact reflects.find?_eq kind
  · rw [found]
    exact reflects.isRejected_eq kind

theorem Reflects.undecided (reflects : registry.Reflects schemas templates) {kind : String}
    (new : templates.any (·.kind = kind) = false) :
    templates.find? (·.kind = kind) = none ∧ registry.find? kind = none ∧
      registry.isRejected kind = false := by
  have none : templates.find? (·.kind = kind) = none := by
    rw [← Option.not_isSome_iff_eq_none, List.isSome_find?, new]
    simp
  rw [reflects.find?_eq, reflects.isRejected_eq, none]
  exact ⟨rfl, rfl, rfl⟩

theorem Reflects.register (reflects : registry.Reflects schemas templates)
    {entry : RegisteredTemplate}
    (new : templates.any (·.kind = template.kind) = false)
    (decided : RegisteredTemplate.ofTemplate schemas template = .ok entry) :
    Reflects schemas { registry with entries := registry.entries ++ [entry] }
      (templates ++ [template]) := by
  obtain ⟨clean, rfl, _, _⟩ := RegisteredTemplate.ofTemplate_eq_ok.1 decided
  obtain ⟨first, unregistered, unrejected⟩ := reflects.undecided new
  refine ⟨?_, ?_, fun kind => ?_, fun kind => ?_⟩
  · simp [withEarlier_concat, reflects.entries_eq, registered?, new, decided, Except.toOption]
  · have apart := List.find?_eq_none.1 unregistered
    rw [List.map_append, List.nodup_append]
    simpa [reflects.kinds] using apart
  · rw [Registry.find?, List.find?_append, List.find?_append]
    by_cases same : entry.template.kind = kind
    · subst same
      rw [show registry.entries.find? _ = none from unregistered, first]
      simp [decided, Except.toOption]
    · rw [show registry.entries.find? _ = _ from reflects.find?_eq kind]
      simp [same]
  · change registry.isRejected kind = _
    rw [List.find?_append]
    by_cases same : entry.template.kind = kind
    · subst same
      simp [unrejected, first, clean]
    · simp [reflects.isRejected_eq kind, same]

theorem Reflects.reject (reflects : registry.Reflects schemas templates)
    (new : templates.any (·.kind = template.kind) = false)
    (decided : RegisteredTemplate.ofTemplate schemas template = .error (template.faults schemas))
    (faulty : template.faults schemas ≠ []) :
    Reflects schemas { registry with rejected := registry.rejected ++ [template.kind] }
      (templates ++ [template]) := by
  obtain ⟨first, unregistered, _⟩ := reflects.undecided new
  refine ⟨?_, reflects.kinds, fun kind => ?_, fun kind => ?_⟩
  · simp [withEarlier_concat, reflects.entries_eq, registered?, new, decided, Except.toOption]
  · change registry.find? kind = _
    rw [List.find?_append]
    by_cases same : template.kind = kind
    · subst same
      simp [unregistered, first, decided, Except.toOption]
    · simp [reflects.find?_eq kind, same]
  · rw [isRejected, List.find?_append]
    by_cases same : template.kind = kind
    · subst same
      simp [first, faulty]
    · simpa [isRejected, same, Ne.symm same] using reflects.isRejected_eq kind

theorem Reflects.add (reflects : registry.Reflects schemas templates) (template : Template) :
    (registry.add schemas template).1.Reflects schemas (templates ++ [template]) ∧
      (registry.add schemas template).2 = registrationFaults schemas (templates, template) := by
  simp only [Registry.add, registrationFaults, reflects.known_eq]
  cases known : templates.any (·.kind = template.kind) with
  | true => exact ⟨reflects.repeated known, rfl⟩
  | false =>
    simp only [Bool.false_eq_true, if_false]
    cases decided : RegisteredTemplate.ofTemplate schemas template with
    | ok entry =>
      obtain ⟨clean, _⟩ := RegisteredTemplate.ofTemplate_eq_ok.1 decided
      exact ⟨reflects.register known decided, clean.symm⟩
    | error errors =>
      obtain ⟨rfl, faulty⟩ := RegisteredTemplate.ofTemplate_eq_error.1 decided
      exact ⟨reflects.reject known decided faulty, rfl⟩

theorem addAll_spec (reflects : registry.Reflects schemas templates) (later : List Template) :
    (registry.addAll schemas later).1.Reflects schemas (templates ++ later) ∧
      (registry.addAll schemas later).2 =
        (withEarlier templates later).flatMap (registrationFaults schemas) := by
  induction later generalizing registry templates with
  | nil => exact ⟨by simpa [addAll] using reflects, rfl⟩
  | cons template rest ih =>
    obtain ⟨first, errors⟩ := reflects.add template
    obtain ⟨others, laterErrors⟩ := ih first
    refine ⟨?_, ?_⟩
    · simpa [addAll] using others
    · rw [withEarlier, List.flatMap_cons, ← errors, ← laterErrors]
      rfl

theorem reflects_empty : Reflects schemas {} [] := ⟨rfl, List.nodup_nil, fun _ => rfl, fun _ => rfl⟩

theorem ofTemplates_reflects (schemas : Schema.Compiler) (templates : List Template) :
    (ofTemplates schemas templates).1.Reflects schemas templates :=
  (addAll_spec reflects_empty templates).1

theorem Reflects.mem_entries (reflects : registry.Reflects schemas templates)
    {entry : RegisteredTemplate}
    (member : entry ∈ registry.entries) :
    entry.template ∈ templates ∧
      RegisteredTemplate.ofTemplate schemas entry.template = .ok entry := by
  rw [reflects.entries_eq, List.mem_filterMap] at member
  obtain ⟨⟨earlier, template⟩, place, found⟩ := member
  obtain ⟨before, after, split, _⟩ := mem_withEarlier.1 place
  simp only [registered?, Option.ite_none_left_eq_some] at found
  cases decided : RegisteredTemplate.ofTemplate schemas template with
  | error errors => simp [decided, Except.toOption] at found
  | ok registered =>
    obtain ⟨_, same, _⟩ := RegisteredTemplate.ofTemplate_eq_ok.1 decided
    obtain rfl : registered = entry := by simpa [decided, Except.toOption] using found.2
    rw [same]
    exact ⟨by simp [split], decided⟩

theorem ofTemplates_errors (schemas : Schema.Compiler) (templates : List Template) :
    (ofTemplates schemas templates).2 =
      (withEarlier [] templates).flatMap (registrationFaults schemas) :=
  (addAll_spec reflects_empty templates).2

theorem Reflects.find?_rejected (reflects : registry.Reflects schemas templates) {kind : String}
    (rejected : registry.isRejected kind = true) : registry.find? kind = none := by
  rw [reflects.isRejected_eq] at rejected
  rw [reflects.find?_eq]
  cases first : templates.find? (·.kind = kind) with
  | none => rfl
  | some template =>
    cases decided : RegisteredTemplate.ofTemplate schemas template with
    | error => simp [decided, Except.toOption]
    | ok entry => simp [first, (RegisteredTemplate.ofTemplate_eq_ok.1 decided).1] at rejected

end Registry

end PolicyReview
