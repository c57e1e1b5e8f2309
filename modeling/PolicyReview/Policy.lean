import PolicyReview.Record

/-! Policy documents. A template mints a kind of constraint, with a schema for its parameters
and a policy source for each target; a constraint of that kind has a match rule and
parameters. A library holds both, and the modules that all sources may import. -/

namespace PolicyReview

structure ObjectMeta where
  name : String
  labels : List (String × String) := []
  annotations : List (String × String) := []
  deriving DecidableEq, Repr

namespace ObjectMeta

def ofJson? (value : Json) : Option ObjectMeta := do
  let members ← Record.members? ["name", "labels", "annotations"] value
  let name ← Record.member? members "name" none Json.string?
  let labels ← Record.member? members "labels" (some []) Record.stringMap?
  let annotations ← Record.member? members "annotations" (some []) Record.stringMap?
  return { name, labels, annotations }

def mapJson (entries : List (String × String)) : Json :=
  .object (entries.map fun (key, value) => (key, .string value))

def toJson (metadata : ObjectMeta) : Json :=
  .object [
    ("annotations", mapJson metadata.annotations),
    ("labels", mapJson metadata.labels),
    ("name", .string metadata.name)]

end ObjectMeta

structure TargetBinding where
  target : String
  source : String
  libraries : List String
  deriving DecidableEq, Repr

structure Template where
  path : String
  apiVersion : String
  metadata : ObjectMeta
  kind : String
  schema : Json
  targets : List TargetBinding
  deriving Repr

/-- The glob patterns that select assets, and those that deselect them again. -/
structure MatchSpec where
  target : List String := ["**"]
  exclude : List String := []
  deriving DecidableEq, Repr

namespace MatchSpec

def ofJson? (value : Json) : Option MatchSpec := do
  let members ← Record.members? ["target", "exclude"] value
  let target ← Record.member? members "target" (some ["**"]) Record.strings?
  let exclude ← Record.member? members "exclude" (some []) Record.strings?
  return { target, exclude }

def toJson (spec : MatchSpec) : Json :=
  .object [("exclude", Json.strings spec.exclude), ("target", Json.strings spec.target)]

end MatchSpec

structure ConstraintSpec where
  severity : Option String := none
  matchSpec : MatchSpec := {}
  parameters : Json := .object []
  deriving Repr

namespace ConstraintSpec

def ofJson? (value : Json) : Option ConstraintSpec := do
  let members ← Record.members? ["severity", "match", "parameters"] value
  let severity ← Record.member? members "severity" (some none) (Record.optional? Json.string?)
  let matchSpec ← Record.member? members "match" (some {}) MatchSpec.ofJson?
  let parameters ← Record.member? members "parameters" (some (.object [])) some
  return { severity, matchSpec, parameters }

/-- An absent severity is left out; everything else is written. -/
def toJson (spec : ConstraintSpec) : Json :=
  .object ([("match", spec.matchSpec.toJson), ("parameters", spec.parameters)] ++
    match spec.severity with
    | some severity => [("severity", .string severity)]
    | none => [])

end ConstraintSpec

structure Constraint where
  path : String
  apiVersion : String
  kind : String
  metadata : ObjectMeta
  spec : ConstraintSpec
  deriving Repr

namespace Constraint

/-- The annotation that, when it is not empty, is shown instead of the name. -/
def originalName : String := "original-name"

def displayName (constraint : Constraint) : String :=
  match constraint.metadata.annotations.lookup originalName with
  | some shown => if shown = "" then constraint.metadata.name else shown
  | none => constraint.metadata.name

def qualify (kind name : String) : String := kind ++ "." ++ name

def qualifiedName (constraint : Constraint) : String :=
  qualify constraint.kind constraint.displayName

def severity (constraint : Constraint) : String := constraint.spec.severity.getD ""

/-- The constraint as JSON, without the path it came from. -/
def echo (constraint : Constraint) : Json :=
  .object [
    ("api_version", .string constraint.apiVersion),
    ("kind", .string constraint.kind),
    ("metadata", constraint.metadata.toJson),
    ("spec", constraint.spec.toJson)]

end Constraint

structure LibraryModule where
  path : String
  source : String
  deriving DecidableEq, Repr

structure PolicyLibrary where
  templates : List Template := []
  constraints : List Constraint := []
  modules : List LibraryModule := []
  deriving Repr

end PolicyReview
