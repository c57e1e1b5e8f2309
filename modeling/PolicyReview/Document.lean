import PolicyReview.Document.Schema
import PolicyReview.Policy
import PolicyReview.PolicyError
import PolicyReview.Schema
import PolicyReview.Yaml.Value

/-! Policy documents. A document is classified by its version and kind, checked against the
schema of its kind and decoded. A file is a sequence of documents, of which the null ones are
passed over; what cannot be used is reported under its index, and the reading of a file ends
at the first document that has no JSON value. -/

namespace PolicyReview

inductive PolicyDocument where
  | template (template : Template)
  | constraint (constraint : Constraint)
  deriving Repr

namespace Document

/-! Decoding. -/

def source? (members : Json.Fields) : Option (String × List String) := do
  let source ← Record.member? members "rego" none Json.string?
  let libraries ← Record.member? members "libs" (some []) Record.strings?
  return (source, libraries)

def bindingOfEntry? (target : String) (value : Json) : Option TargetBinding := do
  let members ← Record.members? ["rego", "libs"] value
  let (source, libraries) ← source? members
  return { target, source, libraries }

def bindingOfItem? (value : Json) : Option TargetBinding := do
  let members ← Record.members? ["target", "rego", "libs"] value
  let target ← Record.member? members "target" none Json.string?
  let (source, libraries) ← source? members
  return { target, source, libraries }

def bindings? : Json → Option (List TargetBinding)
  | .object fields => fields.mapM fun (target, value) => bindingOfEntry? target value
  | .array items => items.mapM bindingOfItem?
  | _ => none

def generated? (value : Json) : Option (String × Json) := do
  let outer ← Record.members? ["spec"] value
  let spec ← Record.member? outer "spec" none (Record.members? ["names", "validation"])
  let names ← Record.member? spec "names" none
    (Record.members? ["kind", "plural", "shortNames"])
  let kind ← Record.member? names "kind" none Json.string?
  let _ ← Record.member? names "plural" (some none) (Record.optional? Json.string?)
  let _ ← Record.member? names "shortNames" (some []) Record.strings?
  let validation ← Record.member? spec "validation" none (Record.members? ["openAPIV3Schema"])
  let schema ← Record.member? validation "openAPIV3Schema" none some
  return (kind, schema)

inductive DecodeFault where
  | malformed (kind : Kind)
  | foreignKind
  deriving DecidableEq, Repr

def DecodeFault.reason : DecodeFault → String
  | malformed .template => "invalid template"
  | malformed .constraint => "invalid constraint"
  | foreignKind => "template kind must be " ++ templateKind

def declaredTemplate? (path : String) (document : Json) : Option (String × Template) := do
  let members ← Record.members? ["apiVersion", "kind", "metadata", "spec"] document
  let apiVersion ← Record.member? members "apiVersion" none Json.string?
  let declared ← Record.member? members "kind" none Json.string?
  let metadata ← Record.member? members "metadata" none ObjectMeta.ofJson?
  let spec ← Record.member? members "spec" none (Record.members? ["crd", "targets"])
  let (kind, schema) ← Record.member? spec "crd" none generated?
  let targets ← Record.member? spec "targets" none bindings?
  return (declared, { path, apiVersion, metadata, kind, schema, targets })

def decodeTemplate (path : String) (document : Json) : Except DecodeFault Template :=
  match declaredTemplate? path document with
  | none => .error (.malformed .template)
  | some (declared, template) =>
    if declared = templateKind then .ok template else .error .foreignKind

def decodeConstraint? (path : String) (document : Json) : Option Constraint := do
  let members ← Record.members? ["apiVersion", "kind", "metadata", "spec"] document
  let apiVersion ← Record.member? members "apiVersion" none Json.string?
  let kind ← Record.member? members "kind" none Json.string?
  let metadata ← Record.member? members "metadata" none ObjectMeta.ofJson?
  let spec ← Record.member? members "spec" none ConstraintSpec.ofJson?
  return { path, apiVersion, kind, metadata, spec }

def decode (path : String) (kind : Kind) (document : Json) : Except DecodeFault PolicyDocument :=
  match kind with
  | .template => (decodeTemplate path document).map .template
  | .constraint =>
    match decodeConstraint? path document with
    | none => .error (.malformed .constraint)
    | some constraint => .ok (.constraint constraint)

/-! Reading. -/

def place (index : Nat) : String := "document " ++ toString index ++ ": "

def unrecognized (path : String) (index : Nat) (document : Json) : PolicyError :=
  let (version, kind) := (header? document).getD ("", "")
  .badConfig path (place index ++ "unrecognized apiVersion '" ++ version ++
    "' with kind '" ++ kind ++ "'")

def undecodable (path : String) (index : Nat) (fault : DecodeFault) : PolicyError :=
  .badConfig path (place index ++ fault.reason)

def unreadable (path : String) (index : Nat) : PolicyError :=
  .badConfig path (place index ++ "invalid yaml")

/-- Reads one document, given its index in its file. -/
def read (path : String) (index : Nat) (document : Json) : Except PolicyError PolicyDocument :=
  match Kind.of? document with
  | none => .error (unrecognized path index document)
  | some kind =>
    match Schema.validate .twentyTwenty (Document.Schema.ofKind kind) document with
    | [] =>
      match decode path kind document with
      | .ok decoded => .ok decoded
      | .error fault => .error (undecodable path index fault)
    | violations => .error (.schemaViolation path (violations.map Schema.Violation.message))

/-- The documents of a file that can be used, and the errors of the others. -/
abbrev Contents := List PolicyDocument × PolicyErrors

def readAll (path : String) : Nat → List (Option Json) → Contents
  | _, [] => ([], [])
  | index, none :: _ => ([], [unreadable path index])
  | index, some .null :: rest => readAll path (index + 1) rest
  | index, some document :: rest =>
    let (documents, errors) := readAll path (index + 1) rest
    match read path index document with
    | .ok decoded => (decoded :: documents, errors)
    | .error error => (documents, error :: errors)

/-- Reads the text of a file. -/
def ofText (path text : String) : Contents := readAll path 0 (Yaml.values text)

end Document

end PolicyReview
