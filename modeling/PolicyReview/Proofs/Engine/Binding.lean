import PolicyReview.Proofs.Engine.Matching

/-! Binding of constraints. What is reported of a constraint depends on the templates and on the
names of the constraints before it; a constraint without faults is bound to the targets of its
template. The errors of its patterns are found once for each target and reported once. -/

namespace PolicyReview

namespace PolicyErrors

variable {errors found : PolicyErrors}

theorem foldl_pushUnique_known (known : ∀ error ∈ found, error ∈ errors) :
    found.foldl pushUnique errors = errors := by
  induction found with
  | nil => rfl
  | cons error rest ih =>
    have here := known error (by simp)
    rw [List.foldl_cons, pushUnique, if_pos here]
    exact ih fun other member => known other (by simp [member])

theorem foldl_pushUnique_new (distinct : found.Nodup) (new : ∀ error ∈ found, error ∉ errors) :
    found.foldl pushUnique errors = errors ++ found := by
  induction found generalizing errors with
  | nil => simp
  | cons error rest ih =>
    obtain ⟨apart, distinct⟩ := List.nodup_cons.1 distinct
    have absent := new error (by simp)
    have still : ∀ other ∈ rest, other ∉ errors ++ [error] := by
      intro other member there
      rcases List.mem_append.1 there with before | same
      · exact new other (by simp [member]) before
      · exact apart (List.mem_singleton.1 same ▸ member)
    rw [List.foldl_cons, pushUnique, if_neg absent, ih distinct still, List.append_assoc]
    rfl

theorem foldl_foldl_pushUnique {α : Type} {targets : List α} (some : targets ≠ [])
    (distinct : found.Nodup) (new : ∀ error ∈ found, error ∉ errors) :
    targets.foldl (fun errors _ => found.foldl pushUnique errors) errors = errors ++ found := by
  have again : ∀ rest : List α, rest.foldl (fun errors _ => found.foldl pushUnique errors)
      (errors ++ found) = errors ++ found := by
    intro rest
    induction rest with
    | nil => rfl
    | cons _ rest ih =>
      rw [List.foldl_cons, foldl_pushUnique_known (by simp +contextual), ih]
  cases targets with
  | nil => exact absurd rfl some
  | cons _ rest => rw [List.foldl_cons, foldl_pushUnique_new distinct new, again]

end PolicyErrors

def Template.parameterFaults (schemas : Schema.Compiler) (template : Template)
    (constraint : Constraint) : PolicyErrors :=
  match schemas.parameters template.schema with
  | .error _ => []
  | .ok parameters =>
    match parameters constraint.spec.parameters with
    | [] => []
    | reports => [.schemaViolation constraint.path
        (reports.map fun report => "spec.parameters: " ++ report.message)]

/-- What is wrong with a constraint by itself. The first template of its kind decides; under one
that is faulty itself nothing is reported. -/
def Constraint.faults (schemas : Schema.Compiler) (templates : List Template)
    (constraint : Constraint) : PolicyErrors :=
  match templates.find? (·.kind = constraint.kind) with
  | none => [.unboundConstraint constraint.metadata.name constraint.kind]
  | some template =>
    if template.faults schemas = [] then
      template.parameterFaults schemas constraint ++ constraint.globFaults
    else []

namespace Binding

/-- What is wrong with a constraint after others. -/
def faults (schemas : Schema.Compiler) (templates : List Template)
    (entry : List Constraint × Constraint) : PolicyErrors :=
  let constraint := entry.2
  let name := constraint.qualifiedName
  if entry.1.any (·.qualifiedName = name) then
    [.badConfig constraint.path ("duplicate constraint name " ++ name)]
  else constraint.faults schemas templates

def boundEntries (registry : Registry) (constraint : Constraint) :
    List (Target × BoundConstraint) :=
  match registry.find? constraint.kind with
  | none => []
  | some entry => entries entry constraint

def tableOf (registry : Registry) (constraints : List Constraint) : BindingTable :=
  ⟨constraints.flatMap (boundEntries registry)⟩

variable {schemas : Schema.Compiler} {registry : Registry} {templates : List Template}
  {template : Template} {entry : RegisteredTemplate} {constraint : Constraint} {progress : Progress}
  {base : PolicyErrors}

theorem parameterErrors_eq
    (registered : RegisteredTemplate.ofTemplate schemas template = .ok entry) :
    parameterErrors entry constraint = template.parameterFaults schemas constraint := by
  obtain ⟨_, _, compiled, _⟩ := RegisteredTemplate.ofTemplate_eq_ok.1 registered
  rw [Template.parameterFaults, compiled]
  rfl

theorem targetErrors_eq (errors : PolicyErrors) : targetErrors constraint errors =
    constraint.globFaults.foldl PolicyErrors.pushUnique errors := by
  unfold targetErrors
  rw [matchErrors_eq_nil]
  cases parsed : MatchRule.ofConstraint constraint with
  | ok rule => rw [(MatchRule.parses_of_ofConstraint parsed).1]; rfl
  | error found => rw [(MatchRule.ofConstraint_eq_error.1 parsed).1]; rfl

theorem not_mem_parameterFaults {field token name : String} {index : Nat} :
    .invalidGlob name field index token ∉ template.parameterFaults schemas constraint := by
  unfold Template.parameterFaults
  split
  · simp
  · split <;> simp

@[simp] theorem bindTo_names : (bindTo entry progress constraint).names = progress.names := rfl

/-- A constraint whose patterns were not reported yet is reported for its own faults. -/
theorem bindTo_errors (registered : RegisteredTemplate.ofTemplate schemas template = .ok entry)
    (new : ∀ field index token,
      .invalidGlob constraint.qualifiedName field index token ∉ progress.errors) :
    (bindTo entry progress constraint).errors =
      progress.errors ++
        (template.parameterFaults schemas constraint ++ constraint.globFaults) := by
  obtain ⟨_, _, some⟩ := RegisteredTemplate.targets_of_ofTemplate registered
  simp only [bindTo, targetErrors_eq, parameterErrors_eq registered]
  rw [PolicyErrors.foldl_foldl_pushUnique some Constraint.globFaults_nodup, List.append_assoc]
  intro error member there
  obtain ⟨field, index, token, rfl⟩ := Constraint.mem_globFaults member
  rcases List.mem_append.1 there with before | parameter
  · exact new field index token before
  · exact not_mem_parameterFaults parameter

theorem isSound_iff (registered : RegisteredTemplate.ofTemplate schemas template = .ok entry) :
    isSound entry constraint = true ↔
      template.parameterFaults schemas constraint ++ constraint.globFaults = [] := by
  have parsed : (MatchRule.ofConstraint constraint).toOption.isSome = true ↔
      constraint.globFaults = [] := by
    cases parsed : MatchRule.ofConstraint constraint with
    | ok rule => simp [Except.toOption, (MatchRule.parses_of_ofConstraint parsed).1]
    | error found =>
      obtain ⟨rfl, faulty⟩ := MatchRule.ofConstraint_eq_error.1 parsed
      simp [Except.toOption, faulty]
  rw [isSound, parameterErrors_eq registered, matchErrors_eq_nil, Bool.and_eq_true,
    Bool.and_eq_true, parsed, List.append_eq_nil_iff]
  simp

theorem bindTo_entries (registered : RegisteredTemplate.ofTemplate schemas template = .ok entry)
    (clean : template.parameterFaults schemas constraint ++ constraint.globFaults = []) :
    (bindTo entry progress constraint).table.entries =
      progress.table.entries ++ entries entry constraint := by
  have sound : isSound entry constraint = true := (isSound_iff registered).2 clean
  simp [bindTo, sound]

structure Progress.Reflects (schemas : Schema.Compiler) (progress : Progress)
    (registry : Registry) (templates : List Template) (base : PolicyErrors)
    (constraints : List Constraint) : Prop where
  names : ∀ name, name ∈ progress.names ↔ constraints.any (·.qualifiedName = name) = true
  errors : progress.errors = base ++ (withEarlier [] constraints).flatMap (faults schemas templates)
  table : (withEarlier [] constraints).flatMap (faults schemas templates) = [] →
    progress.table = tableOf registry constraints

theorem name_of_mem_faults {earlier : List Constraint} {name field token : String} {index : Nat}
    (member : .invalidGlob name field index token ∈
      faults schemas templates (earlier, constraint)) :
    name = constraint.qualifiedName := by
  simp only [faults, Constraint.faults] at member
  split at member
  · simp at member
  split at member
  · simp at member
  split at member
  · rcases List.mem_append.1 member with parameter | glob
    · exact absurd parameter not_mem_parameterFaults
    · obtain ⟨_, _, _, same⟩ := Constraint.mem_globFaults glob
      exact (PolicyError.invalidGlob.inj same).1
  · simp at member

variable {constraints : List Constraint}

theorem Progress.Reflects.new
    (reflects : progress.Reflects schemas registry templates base constraints)
    (noGlobs : ∀ name field index token, .invalidGlob name field index token ∉ base)
    (unmet : constraints.any (·.qualifiedName = constraint.qualifiedName) = false)
    (field : String) (index : Nat) (token : String) :
    .invalidGlob constraint.qualifiedName field index token ∉ progress.errors := by
  rw [reflects.errors, List.mem_append]
  rintro (before | member)
  · exact noGlobs _ _ _ _ before
  obtain ⟨⟨earlier, other⟩, place, found⟩ := List.mem_flatMap.1 member
  obtain ⟨before, after, split, _⟩ := mem_withEarlier.1 place
  have same := name_of_mem_faults found
  rw [split] at unmet
  simp [same] at unmet

theorem Progress.Reflects.concat {next : Progress}
    (reflects : progress.Reflects schemas registry templates base constraints)
    (names : ∀ name, name ∈ next.names ↔ name ∈ progress.names ∨ constraint.qualifiedName = name)
    (errors : next.errors = progress.errors ++ faults schemas templates (constraints, constraint))
    (entries : faults schemas templates (constraints, constraint) = [] →
      next.table.entries = progress.table.entries ++ boundEntries registry constraint) :
    next.Reflects schemas registry templates base (constraints ++ [constraint]) where
  names name := by simp [names, reflects.names]
  errors := by simp [errors, reflects.errors, withEarlier_concat]
  table clean := by
    rw [withEarlier_concat, List.flatMap_append, List.append_eq_nil_iff] at clean
    apply congrArg BindingTable.mk
    rw [entries (by simpa using clean.2), reflects.table clean.1]
    simp [tableOf]

theorem Progress.Reflects.bindTo
    (registered : RegisteredTemplate.ofTemplate schemas template = .ok entry)
    (decides : templates.find? (·.kind = constraint.kind) = some template)
    (kept : registry.find? constraint.kind = some entry)
    (noGlobs : ∀ name field index token, .invalidGlob name field index token ∉ base)
    (unmet : constraints.any (·.qualifiedName = constraint.qualifiedName) = false)
    (reflects : progress.Reflects schemas registry templates base constraints) :
    (bindTo entry { progress with names := progress.names ++ [constraint.qualifiedName] }
      constraint).Reflects schemas registry templates base (constraints ++ [constraint]) := by
  obtain ⟨clean, _⟩ := RegisteredTemplate.ofTemplate_eq_ok.1 registered
  have here : faults schemas templates (constraints, constraint) =
      template.parameterFaults schemas constraint ++ constraint.globFaults := by
    simp [faults, unmet, Constraint.faults, decides, clean]
  refine reflects.concat (by simp [eq_comm]) ?_ fun sound => ?_
  · rw [bindTo_errors registered, here]
    exact reflects.new noGlobs unmet
  · rw [bindTo_entries registered (here ▸ sound), boundEntries, kept]

theorem bindOne_reflects (registered : registry.Reflects schemas templates)
    (noGlobs : ∀ name field index token, .invalidGlob name field index token ∉ base)
    (reflects : progress.Reflects schemas registry templates base constraints)
    (constraint : Constraint) :
    (bindOne registry progress constraint).Reflects schemas registry templates base
      (constraints ++ [constraint]) := by
  have kept := registered.find?_eq constraint.kind
  have refused := registered.isRejected_eq constraint.kind
  simp only [bindOne, reflects.names]
  cases met : constraints.any (·.qualifiedName = constraint.qualifiedName) with
  | true =>
    simp only [if_true]
    refine reflects.concat (fun name => ?_) (by simp [faults, met]) (by simp [faults, met])
    rw [reflects.names]
    exact ⟨.inl, fun either => either.elim id fun same => same ▸ met⟩
  | false =>
    have unmet : faults schemas templates (constraints, constraint) =
        constraint.faults schemas templates := by
      simp [faults, met]
    simp only [Bool.false_eq_true, if_false]
    cases decides : templates.find? (·.kind = constraint.kind) with
    | none =>
      simp only [decides, Option.bind_none, Option.any_none] at kept refused
      simp only [kept, refused, Bool.false_eq_true, if_false]
      refine reflects.concat (by simp [eq_comm]) ?_ ?_
      · simp [unmet, Constraint.faults, decides]
      · simp [unmet, Constraint.faults, decides]
    | some template =>
      simp only [decides, Option.bind_some, Option.any_some] at kept refused
      cases decided : RegisteredTemplate.ofTemplate schemas template with
      | error errors =>
        obtain ⟨rfl, faulty⟩ := RegisteredTemplate.ofTemplate_eq_error.1 decided
        simp only [decided, Except.toOption] at kept
        simp only [refused, List.isEmpty_eq_false_iff.2 faulty, Bool.not_false, if_true]
        refine reflects.concat (by simp [eq_comm]) ?_ ?_
        · simp [unmet, Constraint.faults, decides, faulty]
        · simp [boundEntries, kept]
      | ok entry =>
        obtain ⟨clean, _⟩ := RegisteredTemplate.ofTemplate_eq_ok.1 decided
        simp only [decided, Except.toOption] at kept
        simp only [kept, refused, clean, List.isEmpty_nil, Bool.not_true, Bool.false_eq_true,
          if_false]
        exact reflects.bindTo decided decides kept noGlobs met

theorem reflects_base :
    Progress.Reflects schemas { errors := base } registry templates base [] :=
  ⟨by simp, by simp [withEarlier], fun _ => rfl⟩

theorem bindAll_reflects (registered : registry.Reflects schemas templates)
    (noGlobs : ∀ name field index token, .invalidGlob name field index token ∉ base)
    (constraints : List Constraint) :
    (bindAll registry base constraints).Reflects schemas registry templates base constraints := by
  suffices run : ∀ (earlier : List Constraint) (progress : Progress),
      progress.Reflects schemas registry templates base earlier →
      (constraints.foldl (bindOne registry) progress).Reflects schemas registry templates base
        (earlier ++ constraints) from
    run [] { errors := base } reflects_base
  induction constraints with
  | nil => simp
  | cons constraint rest ih =>
    intro earlier progress reflects
    have next := bindOne_reflects registered noGlobs reflects constraint
    simpa using ih (earlier ++ [constraint]) _ next

def boundAfter (registry : Registry) (entry : List Constraint × Constraint) :
    List (Target × BoundConstraint) :=
  if entry.1.any (·.qualifiedName = entry.2.qualifiedName) then []
  else
    match registry.find? entry.2.kind with
    | none => []
    | some registered => if isSound registered entry.2 then entries registered entry.2 else []

/-- One more constraint is added to the table as what it is bound as, whatever the faults of
others. -/
theorem bindOne_entries (registered : registry.Reflects schemas templates)
    (reflects : progress.Reflects schemas registry templates base constraints)
    (constraint : Constraint) :
    (bindOne registry progress constraint).table.entries =
      progress.table.entries ++ boundAfter registry (constraints, constraint) := by
  simp only [bindOne, reflects.names, boundAfter]
  cases met : constraints.any (·.qualifiedName = constraint.qualifiedName) with
  | true => simp
  | false =>
    simp only [Bool.false_eq_true, if_false]
    split
    next rejected => simp [registered.find?_rejected rejected]
    cases registry.find? constraint.kind with
    | none => simp
    | some entry => simp [bindTo]

theorem bindAll_entries (registered : registry.Reflects schemas templates)
    (noGlobs : ∀ name field index token, .invalidGlob name field index token ∉ base)
    (constraints : List Constraint) : (bindAll registry base constraints).table.entries =
      (withEarlier [] constraints).flatMap (boundAfter registry) := by
  suffices run : ∀ (earlier : List Constraint) (progress : Progress),
      progress.Reflects schemas registry templates base earlier →
      (constraints.foldl (bindOne registry) progress).table.entries =
        progress.table.entries ++ (withEarlier earlier constraints).flatMap (boundAfter registry)
    from run [] { errors := base } reflects_base
  induction constraints with
  | nil => simp [withEarlier]
  | cons constraint rest ih =>
    intro earlier progress reflects
    have next := bindOne_reflects registered noGlobs reflects constraint
    rw [List.foldl_cons, ih _ _ next, bindOne_entries registered reflects, withEarlier,
      List.flatMap_cons, List.append_assoc]

end Binding

end PolicyReview
