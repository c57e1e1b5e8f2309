import PolicyReview.Json

/-! Kinds of policy documents. A document declares a version and a kind; it is a template when
its version is one of those of templates and its kind is the kind that all templates share,
and a constraint when its version is one of those of constraints and its kind is another. -/

namespace PolicyReview.Document

inductive Kind where
  | template
  | constraint
  deriving DecidableEq, Repr

def templateVersions : List String :=
  ["templates.gatekeeper.sh/v1alpha1", "templates.gatekeeper.sh/v1beta1"]

def constraintVersions : List String :=
  ["constraints.gatekeeper.sh/v1alpha1", "constraints.gatekeeper.sh/v1beta1"]

def templateKind : String := "ConstraintTemplate"

/-- The version and the kind that a document declares, when both are strings. -/
def header? (document : Json) : Option (String × String) := do
  let version ← (document.field? "apiVersion").bind Json.string?
  let kind ← (document.field? "kind").bind Json.string?
  return (version, kind)

def Kind.ofHeader? (version kind : String) : Option Kind :=
  if version ∈ templateVersions ∧ kind = templateKind then some .template
  else if version ∈ constraintVersions ∧ kind ≠ templateKind then some .constraint
  else none

def Kind.of? (document : Json) : Option Kind :=
  (header? document).bind fun (version, kind) => Kind.ofHeader? version kind

end PolicyReview.Document
