import PolicyReview.Runtime
import PolicyReview.Target
import PolicyReview.Schema.Compiler

/-! The registry of templates. A template is registered under its kind when its parameter
schema can be used and it binds known targets, each once and at least one; otherwise the
kind is rejected. A kind is decided by its first template, later ones only being reported. -/

namespace PolicyReview

structure RegisteredTemplate where
  template : Template
  parameters : Schema.CompiledSchema
  targets : List Target

namespace RegisteredTemplate

/-- The targets that a list of bindings names, in order, and an error for each binding that
names no target or one that is bound already. -/
def resolveTargets (path : String) (found : List Target) :
    List TargetBinding → List Target × PolicyErrors
  | [] => (found, [])
  | binding :: rest =>
    match Target.ofName? binding.target with
    | some target =>
      if target ∈ found then
        let (targets, errors) := resolveTargets path found rest
        (targets, .badConfig path ("target " ++ binding.target ++ " is bound more than once") ::
          errors)
      else resolveTargets path (found ++ [target]) rest
    | none =>
      let (targets, errors) := resolveTargets path found rest
      (targets, .badConfig path ("unknown target " ++ binding.target) :: errors)

def ofTemplate (schemas : Schema.Compiler) (template : Template) :
    Except PolicyErrors RegisteredTemplate :=
  let compiled := schemas.parameters template.schema
  let schemaErrors : PolicyErrors := match compiled with
    | .ok _ => []
    | .error fault => [.schemaViolation template.path [fault]]
  let countErrors : PolicyErrors :=
    if template.targets = [] then [.badConfig template.path "template declares no targets"] else []
  let (targets, targetErrors) := resolveTargets template.path [] template.targets
  match compiled, schemaErrors ++ countErrors ++ targetErrors with
  | .ok parameters, [] => .ok { template, parameters, targets }
  | _, errors => .error errors

end RegisteredTemplate

structure Registry where
  entries : List RegisteredTemplate := []
  rejected : List String := []

namespace Registry

def find? (registry : Registry) (kind : String) : Option RegisteredTemplate :=
  registry.entries.find? (·.template.kind = kind)

def isRejected (registry : Registry) (kind : String) : Bool := registry.rejected.contains kind

/-- Registers one more template, or reports why it is not registered. -/
def add (schemas : Schema.Compiler) (registry : Registry) (template : Template) :
    Registry × PolicyErrors :=
  if (registry.find? template.kind).isSome || registry.isRejected template.kind then
    (registry, [.badConfig template.path ("duplicate generated kind " ++ template.kind)])
  else
    match RegisteredTemplate.ofTemplate schemas template with
    | .ok entry => ({ registry with entries := registry.entries ++ [entry] }, [])
    | .error errors => ({ registry with rejected := registry.rejected ++ [template.kind] }, errors)

def addAll (schemas : Schema.Compiler) (registry : Registry) :
    List Template → Registry × PolicyErrors
  | [] => (registry, [])
  | template :: rest =>
    let (registry, errors) := registry.add schemas template
    let (registry, later) := registry.addAll schemas rest
    (registry, errors ++ later)

def ofTemplates (schemas : Schema.Compiler) (templates : List Template) :
    Registry × PolicyErrors :=
  addAll schemas {} templates

def inKindOrder (registry : Registry) : List RegisteredTemplate :=
  registry.entries.mergeSort fun a b => a.template.kind ≤ b.template.kind

end Registry

end PolicyReview
