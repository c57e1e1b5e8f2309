import PolicyReview.Config.Reader
import PolicyReview.FileTree

/-! The configuration file. Its path is checked before it is opened and its size before it is
read; then the text is parsed and the configuration checked. -/

namespace PolicyReview

inductive ConfigError where
  | unreadable
  | unparsable
  | invalid (fault : ConfigFault)
  deriving DecidableEq, Repr

namespace Config

def defaultPath : String := "fleet-gate.toml"

/-- The largest size of a configuration file, in bytes. -/
def maxFileSize : Nat := 1024 * 1024

def validatePath (path : String) : Except ConfigFault Unit :=
  if maxPathLength < path.utf8ByteSize then .error .pathTooLong
  else if PolicySettings.hasShortComponents path.toList then .ok ()
  else .error .pathComponentTooLong

/-- The configuration that a file holds, before it is checked. -/
def parse (contents : ByteArray) : Except ConfigError Config :=
  if maxFileSize < contents.size then .error (.invalid .fileTooLarge)
  else
    match String.fromUTF8? contents with
    | none => .error (.invalid .notUtf8)
    | some text =>
      match ofToml? text with
      | some config => .ok config
      | none => .error .unparsable

def checked (config : Config) : Except ConfigError Config :=
  match config.validate with
  | .ok _ => .ok config
  | .error fault => .error (.invalid fault)

def load (disk : Disk) (path : String := defaultPath) : Except ConfigError Config :=
  match validatePath path with
  | .error fault => .error (.invalid fault)
  | .ok _ =>
    match disk.find? (Text.bytes path) with
    | some (.file contents) => (parse contents).bind checked
    | _ => .error .unreadable

end Config

end PolicyReview
