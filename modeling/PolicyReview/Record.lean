import PolicyReview.Json

/-! Records of a closed set of named members, read from JSON. An object may leave members out
but may not have others; an array gives the members by position, from the first one on.
A member that was left out is read as absent, which is not the same as null. -/

namespace PolicyReview.Record

/-- The members of a record with the given names, or nothing when the value has another shape. -/
def members? (names : List String) : Json → Option Json.Fields
  | .object fields => if fields.all (names.contains ·.1) then some fields else none
  | .array items => if items.length ≤ names.length then some (names.zip items) else none
  | _ => none

def member? {α : Type} (members : Json.Fields) (name : String) (default : Option α)
    (read : Json → Option α) : Option α :=
  match members.lookup name with
  | some value => read value
  | none => default

def optional? {α : Type} (read : Json → Option α) : Json → Option (Option α)
  | .null => some none
  | value => (read value).map some

def strings? (value : Json) : Option (List String) :=
  value.array?.bind (List.mapM Json.string?)

def stringMap? (value : Json) : Option (List (String × String)) :=
  value.object?.bind Json.stringFields?

def bool? : Json → Option Bool
  | .bool value => some value
  | _ => none

def word? : Json → Option Nat
  | .number (.int n) => if 0 ≤ n ∧ n < (Nat.pow 2 64 : Int) then some n.toNat else none
  | _ => none

end PolicyReview.Record
