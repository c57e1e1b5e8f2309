import PolicyReview.Schema.Compiler
import PolicyReview.Schema.Metaschema

/-! Parameter schemas of templates: draft 4 schemas made structural. A schema is refused for
the first rule of the metaschema that it breaks, or for a reference that leads nowhere;
`true` and `false` stand for a whole schema without further ado. -/

namespace PolicyReview.Schema

inductive SchemaFault where
  | invalid (fault : Fault)
  | dangling (pointer : String)
  deriving Repr

def SchemaFault.text : SchemaFault → String
  | invalid fault => fault.message
  | dangling pointer => "Pointer '" ++ pointer ++ "' does not exist"

def subschemas : String × Json → List Json
  | (keyword, argument) =>
    match keyword, argument with
    | "properties", .object named => named.map (·.2)
    | "patternProperties", .object named => named.map (·.2)
    | "dependencies", .object named => named.map (·.2)
    | "allOf", .array items => items
    | "anyOf", .array items => items
    | "oneOf", .array items => items
    | "items", .array items => items
    | "items", schema => [schema]
    | "not", schema => [schema]
    | "additionalItems", schema => [schema]
    | "additionalProperties", schema => [schema]
    | _, _ => []

def badPatterns (fields : Json.Fields) : List String :=
  (((fields.lookup "patternProperties").bind Json.object?).getD []).filterMap fun (source, _) =>
    if (Pattern.read? source).isSome then none else some source

/-- Follows every reference that validation may follow, each once, and finds the first that
leads nowhere. `followed` holds the references met so far. -/
def followReferences (root : Json) : Nat → List String → List Json →
    Except SchemaFault (List String)
  | 0, followed, _ => .ok followed
  | _, followed, [] => .ok followed
  | fuel + 1, followed, schema :: rest =>
    match schema with
    | .object fields =>
      match (fields.lookup "$ref").bind Json.string? with
      | some reference =>
        if followed.contains reference then followReferences root fuel followed rest
        else
          match resolve? root reference with
          | some target => followReferences root fuel (reference :: followed) (target :: rest)
          | none => .error (.dangling ((referencePointer? reference).getD reference))
      | none =>
        match badPatterns fields with
        | source :: _ => .error (.invalid (.format (.string source) "regex"))
        | [] => followReferences root fuel followed (fields.flatMap subschemas ++ rest)
    | _ => followReferences root fuel followed rest

def checkSchema (schema : Json) : Except SchemaFault Unit :=
  match schema with
  | .bool _ => .ok ()
  | _ =>
    match validate .four Metaschema.draftFour schema with
    | violation :: _ => .error (.invalid violation.fault)
    | [] => (followReferences schema (schema.size * (schema.size + 1)) [] [schema]).map fun _ => ()

/-- The schema by which the parameters of a template are checked. -/
structure ParameterSchema where
  schema : Json
  deriving Repr

namespace ParameterSchema

def compile (schema : Json) : Except SchemaFault ParameterSchema :=
  let closed := structural schema
  (checkSchema closed).map fun _ => ⟨closed⟩

def violations (parameters : ParameterSchema) (value : Json) : List Violation :=
  validate .four parameters.schema value

def reports (parameters : ParameterSchema) : CompiledSchema := fun value =>
  (parameters.violations value).map Violation.report

end ParameterSchema

def Compiler.draftFour : Compiler where
  compile schema := match checkSchema schema with
    | .ok _ => .ok (ParameterSchema.reports ⟨schema⟩)
    | .error fault => .error fault.text

end PolicyReview.Schema
