import PolicyReview.Schema

/-! Structural schemas. An object schema that lists `properties` and says nothing about other
properties is closed: it gets `additionalProperties: false`. The keywords that hold schemas
are followed; names under `properties` are never taken for keywords. -/

namespace PolicyReview.Schema

def close (fields : Json.Fields) : Json.Fields :=
  if (((fields.lookup "properties").bind Json.object?).isSome &&
      (fields.lookup "additionalProperties").isNone &&
      (fields.lookup "patternProperties").isNone) then
    Json.insertField "additionalProperties" (.bool false) fields
  else fields

/-- What the value of a keyword holds: schemas by name, one schema, a list of them, or none. -/
inductive Holds where
  | named
  | one
  | listed
  | none
  deriving DecidableEq, Repr

def holds (keyword : String) : Holds :=
  match keyword with
  | "properties" | "patternProperties" | "definitions" => .named
  | "items" | "additionalProperties" | "not" => .one
  | "allOf" | "anyOf" | "oneOf" => .listed
  | _ => .none

mutual

def structural : Json → Json
  | .object fields => .object (close (structuralKeywords fields))
  | schema => schema

def structuralKeywords : Json.Fields → Json.Fields
  | [] => []
  | (keyword, argument) :: rest =>
    (keyword, structuralArgument (holds keyword) argument) :: structuralKeywords rest

def structuralArgument : Holds → Json → Json
  | .named, .object named => .object (structuralNamed named)
  | .listed, .array items => .array (structuralItems items)
  | .one, schema => structural schema
  | _, argument => argument

def structuralNamed : Json.Fields → Json.Fields
  | [] => []
  | (name, schema) :: rest => (name, structural schema) :: structuralNamed rest

def structuralItems : List Json → List Json
  | [] => []
  | schema :: rest => structural schema :: structuralItems rest

end

end PolicyReview.Schema
