import PolicyReview.PolicyValue
import PolicyReview.Asset
import PolicyReview.MatchRule

/-! Violations. What an evaluation reports becomes a violation when it has a message and its
details are an object, or null, that leaves the two reserved keys free; these are then
filled with the constraint's own data and the ancestry of the asset. -/

namespace PolicyReview

structure RawResult where
  message : String
  details : Json
  deriving Repr

/-- A constraint together with its parsed match rule. -/
structure BoundConstraint where
  constraint : Constraint
  rule : MatchRule
  deriving Repr

namespace BoundConstraint

def name (bound : BoundConstraint) : String := bound.constraint.qualifiedName

end BoundConstraint

structure ConstraintViolation where
  message : String
  metadata : PolicyMap
  constraint : Constraint
  deriving Repr

/-- A violation as it is reported, with the name of its asset. -/
structure Violation where
  constraintName : String
  resourceName : String
  message : String
  metadata : PolicyMap
  severity : String
  constraintConfig : Json
  deriving Repr

namespace Violation

def toJson (violation : Violation) : Json :=
  .object [
    ("constraint_config", violation.constraintConfig),
    ("constraint_name", .string violation.constraintName),
    ("message", .string violation.message),
    ("metadata", (PolicyValue.map violation.metadata).toJson),
    ("resource_name", .string violation.resourceName),
    ("severity", .string violation.severity)]

end Violation

structure Insight where
  description : String
  targetResources : List String
  subtype : String
  content : PolicyMap
  category : String
  deriving Repr

namespace Insight

def ofViolation (violation : Violation) : Insight where
  description := violation.message
  targetResources := [violation.resourceName]
  subtype := violation.constraintName
  content := [
    ("constraint_config", PolicyValue.ofJson violation.constraintConfig),
    ("metadata", .map violation.metadata),
    ("severity", .string violation.severity)]
  category := "SECURITY"

def toJson (insight : Insight) : Json :=
  .object [
    ("category", .string insight.category),
    ("content", (PolicyValue.map insight.content).toJson),
    ("description", .string insight.description),
    ("subtype", .string insight.subtype),
    ("target_resources", Json.strings insight.targetResources)]

end Insight

namespace ConstraintViolation

def constraintKey : String := "constraint"

def ancestryKey : String := "ancestry_path"

def reservedKeys : List String := [constraintKey, ancestryKey]

def provenance (constraint : Constraint) : PolicyValue :=
  .map [
    ("annotations", PolicyValue.stringMap constraint.metadata.annotations),
    ("labels", PolicyValue.stringMap constraint.metadata.labels),
    ("parameters", PolicyValue.ofJson constraint.spec.parameters)]

def detailsMap? : PolicyValue → Option PolicyMap
  | .map entries => some entries
  | .null => some []
  | _ => none

/-- The violation that a result stands for, or the first rule that it breaks. -/
def ofRaw (asset : Asset) (bound : BoundConstraint) (raw : RawResult) :
    Except ReviewError ConstraintViolation := do
  if raw.message = "" then throw (.malformedResult asset.name bound.name .emptyMessage)
  let some details := detailsMap? (PolicyValue.ofJson raw.details)
    | throw (.malformedResult asset.name bound.name .detailsNotObject)
  if let some key := reservedKeys.find? fun key => (details.lookup key).isSome then
    throw (.reservedKeyCollision asset.name bound.name key)
  let metadata := PolicyMap.insert ancestryKey (.string asset.ancestry)
    (PolicyMap.insert constraintKey (provenance bound.constraint) details)
  return { message := raw.message, metadata, constraint := bound.constraint }

def toViolation (violation : ConstraintViolation) (resourceName : String) : Violation where
  constraintName := violation.constraint.qualifiedName
  resourceName
  message := violation.message
  metadata := violation.metadata
  severity := violation.constraint.severity
  constraintConfig := violation.constraint.echo

end ConstraintViolation

end PolicyReview
