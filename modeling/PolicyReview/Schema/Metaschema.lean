import PolicyReview.Schema

/-! The schema that every draft 4 schema has to meet. -/

namespace PolicyReview.Schema.Metaschema

def ofType (name : String) : Json := .object [("type", .string name)]

def reference (pointer : String) : Json := .object [("$ref", .string pointer)]

def self : Json := reference "#"

def schemaArray : Json := reference "#/definitions/schemaArray"

def stringArray : Json := reference "#/definitions/stringArray"

def simpleType : Json := reference "#/definitions/simpleTypes"

def positive : Json := reference "#/definitions/positiveInteger"

def positiveOrZero : Json := reference "#/definitions/positiveIntegerDefault0"

def anyOf (schemas : List Json) : Json := .object [("anyOf", .array schemas)]

def schemasByName : Json :=
  .object [("additionalProperties", self), ("type", .string "object")]

def definitions : Json :=
  .object [
    ("positiveInteger", .object [("minimum", Json.int 0), ("type", .string "integer")]),
    ("positiveIntegerDefault0",
      .object [("allOf", .array [positive, .object [("default", Json.int 0)]])]),
    ("schemaArray",
      .object [("items", self), ("minItems", Json.int 1), ("type", .string "array")]),
    ("simpleTypes", .object [("enum", Json.strings typeNames)]),
    ("stringArray",
      .object [("items", ofType "string"), ("minItems", Json.int 1), ("type", .string "array"),
        ("uniqueItems", .bool true)])]

def properties : Json :=
  .object [
    ("$schema", ofType "string"),
    ("additionalItems", anyOf [ofType "boolean", self]),
    ("additionalProperties", anyOf [ofType "boolean", self]),
    ("allOf", schemaArray),
    ("anyOf", schemaArray),
    ("definitions", schemasByName),
    ("dependencies",
      .object [("additionalProperties", anyOf [self, stringArray]), ("type", .string "object")]),
    ("description", ofType "string"),
    ("enum", ofType "array"),
    ("exclusiveMaximum", ofType "boolean"),
    ("exclusiveMinimum", ofType "boolean"),
    ("format", ofType "string"),
    ("id", ofType "string"),
    ("items", anyOf [self, schemaArray]),
    ("maxItems", positive),
    ("maxLength", positive),
    ("maxProperties", positive),
    ("maximum", ofType "number"),
    ("minItems", positiveOrZero),
    ("minLength", positiveOrZero),
    ("minProperties", positiveOrZero),
    ("minimum", ofType "number"),
    ("multipleOf",
      .object [("exclusiveMinimum", .bool true), ("minimum", Json.int 0),
        ("type", .string "number")]),
    ("not", self),
    ("oneOf", schemaArray),
    ("pattern", .object [("format", .string "regex"), ("type", .string "string")]),
    ("patternProperties", schemasByName),
    ("properties", schemasByName),
    ("required", stringArray),
    ("title", ofType "string"),
    ("type",
      anyOf [simpleType,
        .object [("items", simpleType), ("minItems", Json.int 1), ("type", .string "array"),
          ("uniqueItems", .bool true)]]),
    ("uniqueItems", ofType "boolean")]

/-- The schema of schemas. -/
def draftFour : Json :=
  .object [
    ("definitions", definitions),
    ("dependencies",
      .object [("exclusiveMaximum", Json.strings ["maximum"]),
        ("exclusiveMinimum", Json.strings ["minimum"])]),
    ("properties", properties),
    ("type", .string "object")]

end PolicyReview.Schema.Metaschema
