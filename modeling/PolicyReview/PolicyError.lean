import PolicyReview.ReviewError

/-! Errors of loading a policy library and of building an engine from it. They are gathered,
in the order in which they are found, rather than raised one at a time. -/

namespace PolicyReview

inductive PolicyError where
  | badConfig (path reason : String)
  | schemaViolation (path : String) (messages : List String)
  | compileError (template target diagnostic : String)
  | unboundConstraint (name kind : String)
  | invalidGlob (constraint field : String) (index : Nat) (token : String)
  deriving DecidableEq, Repr

def PolicyError.message : PolicyError → String
  | badConfig path reason => "bad config in " ++ path ++ ": " ++ reason
  | schemaViolation path messages =>
    "schema violation in " ++ path ++ ": " ++ String.intercalate "; " messages
  | compileError template target diagnostic =>
    "template " ++ template ++ " failed to compile for target " ++ target ++ ": " ++ diagnostic
  | unboundConstraint name kind =>
    "constraint " ++ name ++ " references unknown template kind " ++ kind
  | invalidGlob constraint field index token =>
    "constraint " ++ constraint ++ " has invalid " ++ field ++ " glob at index " ++
      toString index ++ ": `" ++ token ++ "`"

/-- Errors in the order in which they were found. -/
abbrev PolicyErrors := List PolicyError

namespace PolicyErrors

def pushUnique (errors : PolicyErrors) (error : PolicyError) : PolicyErrors :=
  if error ∈ errors then errors else errors ++ [error]

/-- The value if there is no error, else the errors. -/
def orValue {α : Type} (errors : PolicyErrors) (value : α) : Except PolicyErrors α :=
  match errors with
  | [] => .ok value
  | errors => .error errors

def message (errors : PolicyErrors) : String :=
  BatchError.listing (toString errors.length ++ " policy error(s)")
    (errors.map PolicyError.message)

end PolicyErrors

end PolicyReview
