import PolicyReview.Json
import Mathlib.Data.Option.Basic

/-! Places in JSON values. A place is the way from a value to one within it, through fields and
items. What stands at each place by itself, and which places there are, makes up a value. -/

namespace PolicyReview.Json

/-- A step from a value to one that it holds. -/
inductive Step where
  | field (name : String)
  | item (index : Nat)
  deriving DecidableEq, Repr

abbrev Place := List Step

def inner? : Step → Json → Option Json
  | .field name, .object fields => fields.lookup name
  | .item index, .array items => items[index]?
  | _, _ => none

def part? : Place → Json → Option Json
  | [], value => some value
  | step :: rest, value => (value.inner? step).bind (part? rest)

/-- What a value is by itself, whatever it holds. -/
inductive Node where
  | atom (value : Json)
  | array (length : Nat)
  | object (names : List String)

def node : Json → Node
  | .array items => .array items.length
  | .object fields => .object (fields.map (·.1))
  | value => .atom value

variable {value part : Json} {step : Step} {name : String} {index : Nat}

theorem inner?_field : value.inner? (.field name) = some part ↔
    ∃ fields, value = .object fields ∧ fields.lookup name = some part := by
  cases value <;> simp [inner?]

theorem inner?_item : value.inner? (.item index) = some part ↔
    ∃ items, value = .array items ∧ items[index]? = some part := by
  cases value <;> simp [inner?]

theorem part?_append (place rest : Place) (value : Json) :
    value.part? (place ++ rest) = (value.part? place).bind (part? rest) := by
  induction place generalizing value with
  | nil => rfl
  | cons step later ih =>
    simp only [List.cons_append, part?, Option.bind_assoc]
    congr 1
    funext inner
    exact ih inner

theorem part?_singleton (step : Step) (value : Json) : value.part? [step] = value.inner? step := by
  simp [part?]

end PolicyReview.Json
