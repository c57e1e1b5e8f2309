import PolicyReview.Target
import PolicyReview.Json.Text

/-! The module that every policy of a target is compiled with. It names the target and the
constraints bound to it, holds the guard of a review, and tells a policy whether a
constraint is bound. Names are written as JSON, so none of them can leave its line. -/

namespace PolicyReview.Target

/-- The display names of bound constraints by kind, in ascending order of the kinds. -/
abbrev BoundSet := List (String × List String)

namespace BoundSet

def insert (kind name : String) : BoundSet → BoundSet
  | [] => [(kind, [name])]
  | (other, names) :: rest =>
    if kind < other then (kind, [name]) :: (other, names) :: rest
    else if kind = other then (other, names ++ [name]) :: rest
    else (other, names) :: insert kind name rest

def ofConstraints (constraints : List Constraint) : BoundSet :=
  constraints.foldl (fun bound constraint =>
    bound.insert constraint.kind constraint.displayName) []

def toJson (bound : BoundSet) : Json :=
  .object (bound.map fun (kind, names) => (kind, Json.strings names))

end BoundSet

def matchingNote : String :=
  "# matching_constraint only checks that the constraint is bound to this target.\n" ++
  "# Ancestry target/exclude globs are applied by the engine before evaluation,\n" ++
  "# so every review a template sees already matches its constraint.\n"

def matchingRule : String :=
  "matching_constraint(kind, name) if \x7b\n" ++
  "\tsome bound_name in bound_constraints[kind]\n" ++
  "\tbound_name == name\n" ++
  "\x7d\n"

def guardRule (guard : List String) : String :=
  "valid_review if \x7b\n" ++
  String.join (guard.map fun condition => "\t" ++ condition ++ "\n") ++ "\x7d\n"

def renderPreamble (target : String) (bound : BoundSet) (guard : List String) : String :=
  "package target\n\nimport rego.v1\n\n" ++
  "target_name := " ++ Json.quoted target ++ "\n\n" ++
  "bound_constraints := " ++ bound.toJson.render ++ "\n\n" ++
  guardRule guard ++ "\n" ++ matchingNote ++ matchingRule

def preamble (target : Target) (bound : BoundSet) : String :=
  renderPreamble target.name bound target.guards

end PolicyReview.Target
