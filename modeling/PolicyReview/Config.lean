import PolicyReview.Location
import PolicyReview.Record
import PolicyReview.Text.Blank

/-! Configuration: how many workers review, where the policy files and the library modules are,
and how an object store is reached. Bounds are checked in the order of the sections, and the
first one that is broken is reported. -/

namespace PolicyReview

structure EngineSettings where
  workerCount : Option Nat := none
  deriving DecidableEq, Repr

structure PolicySettings where
  paths : List String := []
  libraryPath : Option String := none
  deriving DecidableEq, Repr

structure ObjectStoreSettings where
  region : Option String := none
  endpoint : Option String := none
  forcePathStyle : Bool := false
  allowHttp : Bool := false
  deriving DecidableEq, Repr

structure Config where
  engine : EngineSettings := {}
  policy : PolicySettings := {}
  objectStore : Option ObjectStoreSettings := none
  deriving DecidableEq, Repr

inductive LocationSetting where
  | path (index : Nat)
  | libraryPath
  deriving DecidableEq, Repr

def LocationSetting.text : LocationSetting → String
  | path index => "policy.paths[" ++ toString index ++ "]"
  | libraryPath => "policy.library_path"

inductive LocationSettingFault where
  | empty
  | tooLong
  | componentTooLong
  | unparsable (fault : LocationFault)
  deriving DecidableEq, Repr

/-- A rule on a configuration, or on the file that holds it, that is broken. -/
inductive ConfigFault where
  | workerCount
  | noPaths
  | tooManyPaths
  | location (setting : LocationSetting) (fault : LocationSettingFault)
  | emptyRegion
  | endpointScheme
  | insecureEndpoint
  | pathTooLong
  | pathComponentTooLong
  | fileTooLarge
  | notUtf8
  deriving DecidableEq, Repr

namespace Config

def maxWorkerCount : Nat := 1024

def maxPaths : Nat := 256

/-- The largest length of a path, in bytes. -/
def maxPathLength : Nat := 4096

/-- The largest length of a component of a path, in bytes. -/
def maxComponentLength : Nat := 255

end Config

def LocationSettingFault.text (setting : LocationSetting) : LocationSettingFault → String
  | empty => setting.text ++ " must be non-empty"
  | tooLong => setting.text ++ " exceeds max length"
  | componentTooLong => setting.text ++ " path component too long"
  | unparsable fault => setting.text ++ ": " ++ fault.message

def ConfigFault.text : ConfigFault → String
  | workerCount => "engine.worker_count must be between 1 and " ++ toString Config.maxWorkerCount
  | noPaths => "policy.paths must list at least one location"
  | tooManyPaths => "policy.paths exceeds " ++ toString Config.maxPaths ++ " entries"
  | location setting fault => fault.text setting
  | emptyRegion => "object_store.region must be non-empty"
  | endpointScheme => "object_store.endpoint must include http:// or https://"
  | insecureEndpoint => "object_store.endpoint uses http:// without allow_http"
  | pathTooLong => "config path exceeds max length"
  | pathComponentTooLong => "config path component too long"
  | fileTooLarge => "config file exceeds size limit"
  | notUtf8 => "config file must be utf-8"

def ConfigFault.message (fault : ConfigFault) : String := "invalid config: " ++ fault.text

namespace EngineSettings

def validate (settings : EngineSettings) : Except ConfigFault Unit :=
  match settings.workerCount with
  | none => .ok ()
  | some count =>
    if 1 ≤ count ∧ count ≤ Config.maxWorkerCount then .ok () else .error .workerCount

def workers? (settings : EngineSettings) : Option Nat := settings.workerCount.filter (· ≠ 0)

def toJson (settings : EngineSettings) : Json :=
  .object [("worker_count", match settings.workerCount with
    | some count => Json.nat count
    | none => .null)]

end EngineSettings

namespace PolicySettings

def hasShortComponents (path : List Char) : Bool :=
  (path.splitOn '/').all fun component =>
    (String.ofList component).utf8ByteSize ≤ Config.maxComponentLength

/-- The location of a setting; blanks around it do not count. -/
def parseLocation (setting : LocationSetting) (value : String) : Except ConfigFault Location :=
  match Location.parse (Text.trim value) with
  | .ok location => .ok location
  | .error fault => .error (.location setting (.unparsable fault))

def validateLocation (setting : LocationSetting) (value : String) : Except ConfigFault Unit := do
  let trimmed := Text.trim value
  if trimmed = "" then throw (.location setting .empty)
  if Config.maxPathLength < trimmed.utf8ByteSize then throw (.location setting .tooLong)
  if !hasShortComponents trimmed.toList then throw (.location setting .componentTooLong)
  let _ ← parseLocation setting value

/-- The settings of the listed paths, with their values. -/
def pathSettings (settings : PolicySettings) : List (LocationSetting × String) :=
  settings.paths.zipIdx.map fun (path, index) => (.path index, path)

def locationSettings (settings : PolicySettings) : List (LocationSetting × String) :=
  settings.pathSettings ++ settings.libraryPath.toList.map (.libraryPath, ·)

def validate (settings : PolicySettings) : Except ConfigFault Unit := do
  if settings.paths.isEmpty then throw .noPaths
  if Config.maxPaths < settings.paths.length then throw .tooManyPaths
  settings.locationSettings.forM fun (setting, value) => validateLocation setting value

def locations (settings : PolicySettings) : Except ConfigFault (List Location) :=
  settings.pathSettings.mapM fun (setting, value) => parseLocation setting value

def libraryLocation (settings : PolicySettings) : Except ConfigFault (Option Location) :=
  match settings.libraryPath with
  | none => .ok none
  | some path => (parseLocation .libraryPath path).map some

def toJson (settings : PolicySettings) : Json :=
  .object [
    ("library_path", match settings.libraryPath with
      | some path => .string path
      | none => .null),
    ("paths", Json.strings settings.paths)]

end PolicySettings

namespace ObjectStoreSettings

def validateRegion (settings : ObjectStoreSettings) : Except ConfigFault Unit :=
  if settings.region.any fun region => Text.trim region = "" then .error .emptyRegion else .ok ()

def validateEndpoint (settings : ObjectStoreSettings) : Except ConfigFault Unit :=
  match settings.endpoint with
  | none => .ok ()
  | some endpoint =>
    let text := Text.trimChars endpoint.toList
    if "https://".toList.isPrefixOf text then .ok ()
    else if "http://".toList.isPrefixOf text then
      if settings.allowHttp then .ok () else .error .insecureEndpoint
    else .error .endpointScheme

def validate (settings : ObjectStoreSettings) : Except ConfigFault Unit := do
  settings.validateRegion
  settings.validateEndpoint

def toJson (settings : ObjectStoreSettings) : Json :=
  let optional : Option String → Json
    | some text => .string text
    | none => .null
  .object [
    ("allow_http", .bool settings.allowHttp),
    ("endpoint", optional settings.endpoint),
    ("force_path_style", .bool settings.forcePathStyle),
    ("region", optional settings.region)]

end ObjectStoreSettings

namespace Config

def validate (config : Config) : Except ConfigFault Unit := do
  config.engine.validate
  config.policy.validate
  config.objectStore.forM ObjectStoreSettings.validate

/-- The settings of the object store, or those that hold without any. -/
def store (config : Config) : ObjectStoreSettings := config.objectStore.getD {}

def toJson (config : Config) : Json :=
  .object [
    ("engine", config.engine.toJson),
    ("object_store", match config.objectStore with
      | some settings => settings.toJson
      | none => .null),
    ("policy", config.policy.toJson)]

end Config

end PolicyReview
