import PolicyReview.Engine.Registry

/-! Binding of constraints to the targets of their templates. A constraint is bound to all of
them or to none: its name has to be new, its kind registered, its parameters valid and all
of its patterns globs. Constraints of a rejected kind are passed over without a word. -/

namespace PolicyReview

structure BindingTable where
  entries : List (Target × BoundConstraint) := []
  deriving Repr

namespace BindingTable

/-- The constraints bound to a target, in library order. -/
def boundTo (table : BindingTable) (target : Target) : List BoundConstraint :=
  table.entries.filterMap fun (other, bound) => if other = target then some bound else none

end BindingTable

namespace Binding

structure Progress where
  table : BindingTable := {}
  errors : PolicyErrors := []
  names : List String := []
  deriving Repr

def parameterErrors (entry : RegisteredTemplate) (constraint : Constraint) : PolicyErrors :=
  match entry.parameters constraint.spec.parameters with
  | [] => []
  | reports => [.schemaViolation constraint.path
      (reports.map fun report => "spec.parameters: " ++ report.message)]

def matchErrors (constraint : Constraint) : PolicyErrors :=
  match Schema.validate .twentyTwenty Target.matchSchema constraint.spec.matchSpec.toJson with
  | [] => []
  | violations => [.schemaViolation constraint.path
      (violations.map fun violation => "spec.match: " ++ violation.message)]

def targetErrors (constraint : Constraint) (errors : PolicyErrors) : PolicyErrors :=
  let globErrors := match MatchRule.ofConstraint constraint with
    | .ok _ => []
    | .error errors => errors
  (matchErrors constraint ++ globErrors).foldl PolicyErrors.pushUnique errors

/-- The entries of a constraint that nothing is wrong with. -/
def entries (entry : RegisteredTemplate) (constraint : Constraint) :
    List (Target × BoundConstraint) :=
  match MatchRule.ofConstraint constraint with
  | .ok rule => entry.targets.map (·, { constraint, rule })
  | .error _ => []

def isSound (entry : RegisteredTemplate) (constraint : Constraint) : Bool :=
  (parameterErrors entry constraint).isEmpty && (matchErrors constraint).isEmpty &&
    (MatchRule.ofConstraint constraint).toOption.isSome

def bindTo (entry : RegisteredTemplate) (progress : Progress) (constraint : Constraint) :
    Progress :=
  let errors := entry.targets.foldl (fun errors _ => targetErrors constraint errors)
    (progress.errors ++ parameterErrors entry constraint)
  let bound := if isSound entry constraint then entries entry constraint else []
  { progress with errors, table := ⟨progress.table.entries ++ bound⟩ }

def bindOne (registry : Registry) (progress : Progress) (constraint : Constraint) : Progress :=
  let name := constraint.qualifiedName
  if name ∈ progress.names then
    { progress with errors := progress.errors ++
        [.badConfig constraint.path ("duplicate constraint name " ++ name)] }
  else
    let progress := { progress with names := progress.names ++ [name] }
    if registry.isRejected constraint.kind then progress
    else
      match registry.find? constraint.kind with
      | none => { progress with errors := progress.errors ++
          [.unboundConstraint constraint.metadata.name constraint.kind] }
      | some entry => bindTo entry progress constraint

def bindAll (registry : Registry) (errors : PolicyErrors) (constraints : List Constraint) :
    Progress :=
  constraints.foldl (bindOne registry) { errors }

end Binding

end PolicyReview
