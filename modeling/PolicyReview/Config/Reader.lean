import PolicyReview.Config
import PolicyReview.Toml.Document

/-! Configurations read from JSON and from TOML. Sections and settings may be left out, and no
others may be there; a section may also list its settings by position, which in TOML may be
more than there are. -/

namespace PolicyReview

/-- Whether a list may hold more values than a record has members. -/
inductive Excess where
  | refused
  | ignored
  deriving DecidableEq, Repr

namespace Excess

def trim (excess : Excess) (count : Nat) (value : Json) : Json :=
  match excess, value with
  | .ignored, .array items => .array (items.take count)
  | _, value => value

def members? (excess : Excess) (names : List String) (value : Json) : Option Json.Fields :=
  Record.members? names (excess.trim names.length value)

end Excess

namespace Config

def engineOfJson? (excess : Excess) (value : Json) : Option EngineSettings := do
  let members ← excess.members? ["worker_count"] value
  let workerCount ← Record.member? members "worker_count" (some none) (Record.optional? Record.word?)
  return { workerCount }

def policyOfJson? (excess : Excess) (value : Json) : Option PolicySettings := do
  let members ← excess.members? ["paths", "library_path"] value
  let paths ← Record.member? members "paths" (some []) Record.strings?
  let libraryPath ← Record.member? members "library_path" (some none)
    (Record.optional? Json.string?)
  return { paths, libraryPath }

def storeOfJson? (excess : Excess) (value : Json) : Option ObjectStoreSettings := do
  let members ← excess.members? ["region", "endpoint", "force_path_style", "allow_http"] value
  let region ← Record.member? members "region" (some none) (Record.optional? Json.string?)
  let endpoint ← Record.member? members "endpoint" (some none) (Record.optional? Json.string?)
  let forcePathStyle ← Record.member? members "force_path_style" (some false) Record.bool?
  let allowHttp ← Record.member? members "allow_http" (some false) Record.bool?
  return { region, endpoint, forcePathStyle, allowHttp }

def storeSettings? (value : Json) : Option ObjectStoreSettings := storeOfJson? .refused value

def read? (excess : Excess) (value : Json) : Option Config := do
  let members ← excess.members? ["engine", "policy", "object_store"] value
  let engine ← Record.member? members "engine" (some {}) (engineOfJson? excess)
  let policy ← Record.member? members "policy" (some {}) (policyOfJson? excess)
  let objectStore ← Record.member? members "object_store" (some none)
    (Record.optional? (storeOfJson? excess))
  return { engine, policy, objectStore }

def ofJson? (value : Json) : Option Config := read? .refused value

end Config

namespace Toml

def opaqueName : String := "value"

def unusable : Json := .object [(opaqueName, .null)]

mutual

/-- The JSON value of a TOML value. Numbers that are no integers of 64 bits, and dates and times,
become a value that no setting takes. -/
def Value.toJson : Value → Json
  | .text text => .string text
  | .integer n => if Number.fitsWord n then Json.int n else unusable
  | .boolean value => .bool value
  | .float => unusable
  | .moment => unusable
  | .array items => .array (itemsToJson items)
  | .table entries => Json.ofEntries (entriesToJson entries)

def itemsToJson : List Value → List Json
  | [] => []
  | item :: rest => item.toJson :: itemsToJson rest

def entriesToJson : List (String × Value) → List (String × Json)
  | [] => []
  | (name, value) :: rest => (name, value.toJson) :: entriesToJson rest

end

end Toml

def Config.ofToml? (text : String) : Option Config :=
  (Toml.read? text).bind fun value => Config.read? .ignored value.toJson

end PolicyReview
