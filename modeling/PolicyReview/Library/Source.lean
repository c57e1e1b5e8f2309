import PolicyReview.Config
import PolicyReview.FileTree

/-! Sources of policy files. A disk location gives the files under it, in the order of a walk; a
file that is too large is reported in place of its contents, and the others are read all the
same. An object store is reached only with settings that are valid. -/

namespace PolicyReview.Library

def maxFileSize : Nat := 4 * 1024 * 1024

inductive SourceFault where
  | notFound (path : String)
  | tooLarge (path : String)
  | badSettings (fault : ConfigFault)
  | unreachable
  deriving DecidableEq, Repr

/-- A file that is too large is read no further than the first byte past the limit. -/
def SourceFault.message : SourceFault → String
  | notFound path => "location not found: " ++ path
  | tooLarge path => "file too large: " ++ path ++ " (" ++ toString (maxFileSize + 1) ++ " > " ++
      toString maxFileSize ++ ")"
  | badSettings fault => "invalid uri: " ++ fault.message
  | unreachable => "object store backend error: no connection"

/-- A file that was read; its path is the text that the bytes of the path are shown as. -/
structure SourceFile where
  path : String
  contents : ByteArray

abbrev Reading := Except SourceFault SourceFile

def readItem (item : FileTree.Item) : Reading :=
  if maxFileSize < item.contents.size then .error (.tooLarge (Text.shown item.path))
  else .ok ⟨Text.shown item.path, item.contents⟩

/-- Reads the files under a path whose own names are shown as texts that a condition holds of. -/
def readDisk (disk : Disk) (accepts : String → Bool) (path : Text.Bytes) :
    Except SourceFault (List Reading) :=
  match disk.find? path with
  | none => .error (.notFound (Text.shown path))
  | some root =>
    .ok (((root.items path (FileTree.lastName path)).filter fun item =>
      accepts (Text.shown item.name)).map readItem)

def readLocation (disk : Disk) (store : ObjectStoreSettings) (accepts : String → Bool) :
    Location → Except SourceFault (List Reading)
  | .disk path => readDisk disk accepts path
  | .objectStore _ _ =>
    match store.validate with
    | .error fault => .error (.badSettings fault)
    | .ok _ => .error .unreachable

end PolicyReview.Library
