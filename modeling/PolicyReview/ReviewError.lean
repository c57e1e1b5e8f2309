/-! Errors of the review of one asset, and of a batch of assets. An error keeps the asset's
name and what went wrong; its wording is in `message`. -/

namespace PolicyReview

inductive AssetFault where
  | notObject
  | missingName
  | missingType
  | badAncestors
  | payloadCount (found : List String)
  | other (reason : String)
  deriving DecidableEq, Repr

def AssetFault.reason : AssetFault → String
  | notObject => "asset must be a JSON object"
  | missingName => "missing name"
  | missingType => "missing asset_type"
  | badAncestors => "ancestors must be an array of strings"
  | payloadCount [] => "exactly one payload is required, found none"
  | payloadCount found => "exactly one payload is required, found " ++ String.intercalate ", " found
  | other reason => reason

inductive ResultFault where
  | emptyMessage
  | detailsNotObject
  | other (reason : String)
  deriving DecidableEq, Repr

def ResultFault.reason : ResultFault → String
  | emptyMessage => "empty message"
  | detailsNotObject => "details must be an object"
  | other reason => reason

inductive ReviewError where
  | malformedAsset (asset : String) (fault : AssetFault)
  | missingAncestry (asset : String)
  | unroutableAsset (asset assetType : String)
  | evaluatorFailure (asset constraint detail : String)
  | reservedKeyCollision (asset constraint key : String)
  | malformedResult (asset constraint : String) (fault : ResultFault)
  | cancelled (asset : String)
  deriving DecidableEq, Repr

namespace ReviewError

def assetName : ReviewError → String
  | malformedAsset asset _ => asset
  | missingAncestry asset => asset
  | unroutableAsset asset _ => asset
  | evaluatorFailure asset _ _ => asset
  | reservedKeyCollision asset _ _ => asset
  | malformedResult asset _ _ => asset
  | cancelled asset => asset

def message : ReviewError → String
  | malformedAsset asset fault => "malformed asset " ++ asset ++ ": " ++ fault.reason
  | missingAncestry asset => "asset " ++ asset ++ " has no ancestry"
  | unroutableAsset asset assetType =>
    "asset " ++ asset ++ " of type " ++ assetType ++ " is not handled by any target"
  | evaluatorFailure asset constraint detail =>
    "evaluation of " ++ constraint ++ " failed for asset " ++ asset ++ ": " ++ detail
  | reservedKeyCollision asset constraint key =>
    "constraint " ++ constraint ++ " returned reserved metadata key `" ++ key ++
      "` for asset " ++ asset
  | malformedResult asset constraint fault =>
    "constraint " ++ constraint ++ " returned a malformed result for asset " ++ asset ++
      ": " ++ fault.reason
  | cancelled asset => "review of asset " ++ asset ++ " was cancelled"

end ReviewError

/-- One failure within a batch: the asset's index in the request, its name and the error. -/
structure BatchFailure where
  index : Nat
  asset : String
  error : ReviewError
  deriving DecidableEq, Repr

def BatchFailure.message (failure : BatchFailure) : String :=
  "asset[" ++ toString failure.index ++ "] " ++ failure.asset ++ ": " ++ failure.error.message

structure BatchError where
  failures : List BatchFailure
  deriving DecidableEq, Repr

namespace BatchError

/-- Sorts failures by index; failures of one asset keep their order. -/
def ofFailures (failures : List BatchFailure) : BatchError :=
  ⟨failures.mergeSort fun a b => a.index ≤ b.index⟩

def listing (heading : String) (items : List String) : String :=
  heading ++ String.join (items.map fun item => "\n  - " ++ item)

def message (error : BatchError) : String :=
  listing (toString error.failures.length ++ " asset(s) failed review")
    (error.failures.map BatchFailure.message)

end BatchError

end PolicyReview
