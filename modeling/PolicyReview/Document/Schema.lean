import PolicyReview.Document.Kind

/-! Schemas of policy documents. No level of a document may have fields beside the ones named
here; the parameter schema of a template and the parameters of a constraint are open. -/

namespace PolicyReview.Document.Schema

def dialect : Json := .string "https://json-schema.org/draft/2020-12/schema"

def ofType (name : String) : Json := .object [("type", .string name)]

def nonEmptyText : Json :=
  .object [("minLength", Json.int 1), ("type", .string "string")]

/-- An object with fixed fields, some of which have to be there. -/
def closed (properties : Json.Fields) (required : List String := []) : Json :=
  .object ([("additionalProperties", .bool false), ("properties", .object properties)] ++
    (if required.isEmpty then [] else [("required", Json.strings required)]) ++
    [("type", .string "object")])

def listOf (items : Json) : Json :=
  .object [("items", items), ("type", .string "array")]

def texts : Json := listOf (ofType "string")

def textMap : Json :=
  .object [("additionalProperties", ofType "string"), ("type", .string "object")]

def metadata : Json :=
  closed [("annotations", textMap), ("labels", textMap), ("name", nonEmptyText)] ["name"]

/-- A closed object with the fields that name a schema. -/
def entitled (name title : String) (properties : Json.Fields) (required : List String) : Json :=
  .object [
    ("$id", .string ("fleet-gate://contract/schemas/" ++ name ++ ".schema.json")),
    ("$schema", dialect),
    ("additionalProperties", .bool false),
    ("properties", .object properties),
    ("required", Json.strings required),
    ("title", .string title),
    ("type", .string "object")]

def documentFields : List String := ["apiVersion", "kind", "metadata", "spec"]

/-! Templates. -/

def generated : Json :=
  closed [
    ("spec", closed [
      ("names", closed [
        ("kind", nonEmptyText), ("plural", ofType "string"), ("shortNames", texts)] ["kind"]),
      ("validation", closed [("openAPIV3Schema", ofType "object")] ["openAPIV3Schema"])]
      ["names", "validation"])]
    ["spec"]

def source : Json := closed [("libs", texts), ("rego", nonEmptyText)] ["rego"]

def namedSource : Json :=
  closed [("libs", texts), ("rego", nonEmptyText), ("target", nonEmptyText)] ["rego", "target"]

/-- Sources by the names of their targets, or a list of sources that name their targets. -/
def targets : Json :=
  .object [("oneOf", .array [
    .object [
      ("additionalProperties", source), ("minProperties", Json.int 1), ("type", .string "object")],
    .object [("items", namedSource), ("minItems", Json.int 1), ("type", .string "array")]])]

def template : Json :=
  entitled "template" "Constraint Template" [
    ("apiVersion", .object [("enum", Json.strings templateVersions)]),
    ("kind", .object [("const", .string templateKind)]),
    ("metadata", metadata),
    ("spec", closed [("crd", generated), ("targets", targets)] ["crd", "targets"])]
    documentFields

/-! Constraints. -/

def matchSpec : Json := closed [("exclude", texts), ("target", texts)]

def constraint : Json :=
  entitled "constraint" "Constraint" [
    ("apiVersion", .object [("enum", Json.strings constraintVersions)]),
    ("kind", .object [
      ("minLength", Json.int 1),
      ("not", .object [("const", .string templateKind)]),
      ("type", .string "string")]),
    ("metadata", metadata),
    ("spec", closed [
      ("match", matchSpec), ("parameters", ofType "object"), ("severity", ofType "string")])]
    documentFields

def ofKind : Kind → Json
  | .template => template
  | .constraint => constraint

end PolicyReview.Document.Schema
