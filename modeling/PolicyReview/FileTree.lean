import PolicyReview.Text.Utf8

/-! Trees of files. A folder holds files and folders under names, in any order, and a walk takes them
in the order of their names. Names and paths are bytes. A path that starts with a slash is read from
the root on, any other from the folder that is worked in; a point and an empty part stay in a folder,
and two points go up to the one around it, from the root nowhere. -/

namespace PolicyReview

inductive FileTree where
  | file (contents : ByteArray)
  | folder (entries : List (Text.Bytes × FileTree))
  deriving Inhabited

namespace FileTree

abbrev Entries := List (Text.Bytes × FileTree)

def empty : FileTree := .folder []

def setEntry (name : Text.Bytes) (tree : FileTree) : Entries → Entries
  | [] => [(name, tree)]
  | (other, old) :: rest =>
    if name = other then (name, tree) :: rest else (other, old) :: setEntry name tree rest

def entries : FileTree → Entries
  | .folder entries => entries
  | .file _ => []

def insert (root : FileTree) (path : List Text.Bytes) (tree : FileTree) : FileTree :=
  match path with
  | [] => tree
  | name :: path =>
    let inner := (root.entries.lookup name).getD empty
    .folder (setEntry name (inner.insert path tree) root.entries)

def slash : UInt8 := 0x2f

def point : UInt8 := 0x2e

/-- Follows the parts of a path. `above` holds the folders around a tree, the nearest first. -/
def follow? (above : List FileTree) (tree : FileTree) : List Text.Bytes → Option FileTree
  | [] => some tree
  | part :: rest =>
    match tree with
    | .file _ => none
    | .folder entries =>
      if part = [] ∨ part = [point] then follow? above tree rest
      else if part = [point, point] then
        match above with
        | outer :: above => follow? above outer rest
        | [] => follow? [] tree rest
      else
        match entries.lookup part with
        | some inner => follow? (tree :: above) inner rest
        | none => none

/-- The parts of a path between its slashes. -/
def parts (path : Text.Bytes) : List Text.Bytes := path.splitOn slash

structure Item where
  path : Text.Bytes
  name : Text.Bytes
  contents : ByteArray

def endsInSlash (path : Text.Bytes) : Bool := path.getLast? = some slash

/-- The path of a name within the folder of a path. -/
def join (path name : Text.Bytes) : Text.Bytes :=
  if endsInSlash path then path ++ name else path ++ slash :: name

mutual

def items (path name : Text.Bytes) : FileTree → List Item
  | .file contents => [⟨path, name, contents⟩]
  | .folder entries =>
    ((entryItems path entries).mergeSort fun first second => first.1 ≤ second.1).flatMap (·.2)

def entryItems (path : Text.Bytes) : Entries → List (Text.Bytes × List Item)
  | [] => []
  | (name, tree) :: rest => (name, items (join path name) name tree) :: entryItems path rest

end

def lastName (path : Text.Bytes) : Text.Bytes :=
  (((parts path).filter fun part => part ≠ [] ∧ part ≠ [point]).getLast?).getD path

end FileTree

/-- All files, and the names that lead to the folder that is worked in. -/
structure Disk where
  root : FileTree
  here : List Text.Bytes := []

namespace Disk

/-- The parts of a path from the root on. -/
def route (disk : Disk) (path : Text.Bytes) : List Text.Bytes :=
  if path.head? = some FileTree.slash then FileTree.parts path else disk.here ++ FileTree.parts path

/-- What a path leads to. -/
def find? (disk : Disk) (path : Text.Bytes) : Option FileTree :=
  if path = [] then none else FileTree.follow? [] disk.root (disk.route path)

end Disk

end PolicyReview
