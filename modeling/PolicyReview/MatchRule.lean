import PolicyReview.Policy
import PolicyReview.PolicyError
import PolicyReview.Ancestry.Glob

/-! Match rules: a constraint applies to an asset when some selecting glob and no deselecting
glob matches the asset's ancestry. Every pattern that is no glob is reported, those that
select before those that deselect. -/

namespace PolicyReview

structure MatchRule where
  target : List Glob
  exclude : List Glob
  deriving DecidableEq, Repr

namespace MatchRule

def applies (rule : MatchRule) (path : String) : Bool :=
  rule.target.any (·.matchesPath path) && !rule.exclude.any (·.matchesPath path)

/-- The globs of the patterns that parse, and an error for each of the others. -/
def parseList (constraint field : String) (patterns : List String) : List Glob × PolicyErrors :=
  let parsed := patterns.zipIdx.map fun (pattern, index) => (Glob.parse pattern, index)
  (parsed.filterMap fun (result, _) => result.toOption,
    parsed.filterMap fun (result, index) =>
      match result with
      | .ok _ => none
      | .error error => some (.invalidGlob constraint field index error.token))

def ofConstraint (constraint : Constraint) : Except PolicyErrors MatchRule :=
  let name := constraint.qualifiedName
  let (target, targetErrors) := parseList name "target" constraint.spec.matchSpec.target
  let (exclude, excludeErrors) := parseList name "exclude" constraint.spec.matchSpec.exclude
  PolicyErrors.orValue (targetErrors ++ excludeErrors) { target, exclude }

end MatchRule

end PolicyReview
