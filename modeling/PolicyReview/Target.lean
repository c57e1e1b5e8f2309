import PolicyReview.Asset
import PolicyReview.MatchRule

/-! The targets that review assets. The cloud asset target takes every asset whose type names
an API service and reviews its envelope; the admission target takes every other resource
that holds a cluster object and reviews that object as a creation request. Assets are
offered to the targets in the order of `Target.all`. -/

namespace PolicyReview

inductive Target where
  | cloudAsset
  | admission
  deriving DecidableEq, Repr

namespace Target

/-- Every target, in the order in which assets are offered. -/
def all : List Target := [cloudAsset, admission]

def name : Target → String
  | cloudAsset => "validation.gcp.forsetisecurity.org"
  | admission => "admission.k8s.gatekeeper.sh"

def ofName? (name : String) : Option Target := all.find? (·.name = name)

def matchSchema : Json :=
  let list := Json.object [("items", .object [("type", .string "string")]), ("type", .string "array")]
  .object [
    ("additionalProperties", .bool false),
    ("properties", .object [("exclude", list), ("target", list)]),
    ("type", .string "object")]

def guards : Target → List String
  | cloudAsset => [
    "is_string(input.review.name)",
    "is_string(input.review.asset_type)",
    "is_string(input.review.ancestry_path)"]
  | admission => [
    "is_object(input.review.object)",
    "is_string(input.review.kind.kind)",
    "is_string(input.review.name)"]

def serviceSuffix : List Char := ".googleapis.com".toList

/-- Whether a type is a service of the API domain, a slash and a kind that is not empty. -/
def isServiceType (assetType : String) : Bool :=
  match assetType.toList.span (· ≠ '/') with
  | (service, _ :: kind) => serviceSuffix.isSuffixOf service && !kind.isEmpty
  | (_, []) => false

/-- The annotation in which the request's object carries the ancestry of its asset. -/
def ancestryAnnotation : String := "fleet-gate.io/ancestry-path"

def groupVersion (apiVersion : String) : String × String :=
  let pieces := apiVersion.toList.splitOn '/'
  match pieces.reverse with
  | version :: group@(_ :: _) =>
    (String.ofList (List.intercalate ['/'] group.reverse), String.ofList version)
  | _ => ("", apiVersion)

def subobject? (name : String) (fields : Json.Fields) : Option Json.Fields :=
  match fields.lookup name with
  | some value => value.object?
  | none => some []

def admissionReview? (asset : Asset) : Option Json := do
  guard (asset.payloadKind = .resource ∧ isServiceType asset.assetType = false)
  let object ← (asset.payload.field? "data").bind Json.object?
  let apiVersion ← (object.lookup "apiVersion").bind Json.string?
  let kind ← (object.lookup "kind").bind Json.string?
  let metadata ← subobject? "metadata" object
  let annotations ← subobject? "annotations" metadata
  let (group, version) := groupVersion apiVersion
  let marked := Json.insertField ancestryAnnotation (.string asset.ancestry) annotations
  let metadata' := Json.insertField "annotations" (.object marked) metadata
  return .object [
    ("kind", .object [
      ("group", .string group), ("kind", .string kind), ("version", .string version)]),
    ("name", .string (((metadata.lookup "name").bind Json.string?).getD asset.name)),
    ("namespace", .string (((metadata.lookup "namespace").bind Json.string?).getD "")),
    ("object", .object (Json.insertField "metadata" (.object metadata') object)),
    ("operation", .string "CREATE")]

/-- What the target reviews of an asset, or nothing when it does not take the asset. -/
def review? : Target → Asset → Option Json
  | cloudAsset, asset => if isServiceType asset.assetType then some asset.envelope else none
  | admission, asset => admissionReview? asset

def route? (asset : Asset) : Option (Target × Json) :=
  all.findSome? fun target => (target.review? asset).map (target, ·)

end Target

end PolicyReview
