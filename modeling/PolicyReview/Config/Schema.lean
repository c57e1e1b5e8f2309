import PolicyReview.Config
import PolicyReview.Document.Schema

/-! The schema of configurations. -/

namespace PolicyReview.Config.Schema

open PolicyReview.Document.Schema (closed ofType dialect)

def orNull (schema : Json) : Json := .array [ofType "null", schema]

def optional (schema : Json) : Json :=
  .object [("default", .null), ("oneOf", orNull schema)]

def location (description : String) : Json :=
  .object [
    ("description", .string description),
    ("maxLength", Json.nat maxPathLength),
    ("minLength", Json.int 1),
    ("type", .string "string")]

def flag : Json := .object [("default", .bool false), ("type", .string "boolean")]

def engine : Json :=
  closed [
    ("worker_count", .object [
      ("default", .null),
      ("description", .string "Review worker threads; defaults to logical cores."),
      ("oneOf", orNull (.object [
        ("maximum", Json.nat maxWorkerCount), ("minimum", Json.int 1),
        ("type", .string "integer")]))])]

def policy : Json :=
  closed [
    ("library_path", optional (location "Local path or s3:// URI holding Rego library modules.")),
    ("paths", .object [
      ("items", location "Local path or s3:// URI holding policy documents."),
      ("maxItems", Json.nat maxPaths),
      ("minItems", Json.int 1),
      ("type", .string "array")])]
    ["paths"]

def objectStore : Json :=
  closed [
    ("allow_http", flag),
    ("endpoint", optional (.object [
      ("pattern", .string "^https?://"), ("type", .string "string")])),
    ("force_path_style", flag),
    ("region", optional (.object [("minLength", Json.int 1), ("type", .string "string")]))]

def config : Json :=
  .object [
    ("$id", .string "fleet-gate://contract/schemas/config.schema.json"),
    ("$schema", dialect),
    ("additionalProperties", .bool false),
    ("description", .string "Configuration for the Fleet Gate policy engine."),
    ("properties", .object [
      ("engine", engine), ("object_store", optional objectStore), ("policy", policy)]),
    ("required", Json.strings ["policy"]),
    ("title", .string "Fleet Gate Configuration"),
    ("type", .string "object")]

end PolicyReview.Config.Schema
