import PolicyReview.Json
import PolicyReview.Ancestry
import PolicyReview.ReviewError

/-! Assets under review. An asset has a name, a type, a canonical ancestry path and exactly one
payload; it is read from JSON by checking these in that order, and its envelope is the JSON
object with just those four fields. -/

namespace PolicyReview

inductive PayloadKind where
  | resource
  | iamPolicy
  | orgPolicy
  | accessPolicy
  | accessLevel
  | servicePerimeter
  deriving DecidableEq, Repr

namespace PayloadKind

/-- Every kind, in the order in which an asset's fields are searched. -/
def all : List PayloadKind :=
  [resource, iamPolicy, orgPolicy, accessPolicy, accessLevel, servicePerimeter]

def fieldName : PayloadKind → String
  | resource => "resource"
  | iamPolicy => "iam_policy"
  | orgPolicy => "org_policy"
  | accessPolicy => "access_policy"
  | accessLevel => "access_level"
  | servicePerimeter => "service_perimeter"

end PayloadKind

structure Asset where
  name : String
  assetType : String
  ancestry : String
  payloadKind : PayloadKind
  payload : Json
  deriving Repr

namespace Asset

def present? (name : String) (value : Json) : Option Json :=
  (value.field? name).filter fun field => !field.isNull

def pathOfAncestors (asset : Json) : Except AssetFault String :=
  match present? "ancestors" asset with
  | none => .ok ""
  | some (.array items) =>
    match items.mapM Json.string? with
    | some ancestors => .ok (Ancestry.ofAncestors ancestors)
    | none => .error .badAncestors
  | some _ => .error .badAncestors

def deriveAncestry (name : String) (asset : Json) : Except ReviewError String :=
  match pathOfAncestors asset with
  | .error fault => .error (.malformedAsset name fault)
  | .ok derived =>
    let path := if derived ≠ "" then derived
      else Ancestry.canonicalize (asset.textField "ancestry_path")
    if path = "" then .error (.missingAncestry name) else .ok path

def payloads (asset : Json) : List (PayloadKind × Json) :=
  PayloadKind.all.filterMap fun kind =>
    (present? kind.fieldName asset).map (kind, ·)

def singlePayload (name : String) (asset : Json) : Except ReviewError (PayloadKind × Json) :=
  match payloads asset with
  | [payload] => .ok payload
  | many => .error (.malformedAsset name (.payloadCount (many.map (·.1.fieldName))))

/-- The asset that a JSON value describes, or the first rule that it breaks. -/
def ofJson (value : Json) : Except ReviewError Asset :=
  match value with
  | .object _ => do
    let name := value.textField "name"
    if name = "" then throw (.malformedAsset name .missingName)
    let assetType := value.textField "asset_type"
    if assetType = "" then throw (.malformedAsset name .missingType)
    let ancestry ← deriveAncestry name value
    let (payloadKind, payload) ← singlePayload name value
    return { name, assetType, ancestry, payloadKind, payload }
  | _ => .error (.malformedAsset "" .notObject)

def envelope (asset : Asset) : Json :=
  Json.ofEntries [
    ("name", .string asset.name),
    ("asset_type", .string asset.assetType),
    ("ancestry_path", .string asset.ancestry),
    (asset.payloadKind.fieldName, asset.payload)]

end Asset

end PolicyReview
