import PolicyReview.Config
import PolicyReview.Document
import PolicyReview.Library.Source

/-! Loading of policy libraries. Documents come from the files of all policy locations, sorted
by path and each path once, and modules from the files of the library location, sorted by
path. Whatever cannot be read or used is reported; a library without errors is returned. -/

namespace PolicyReview.Library

def isDocumentFile (name : String) : Bool := name.endsWith ".yaml" || name.endsWith ".yml"

def isModuleFile (name : String) : Bool := name.endsWith ".rego"

abbrev Files := List SourceFile × PolicyErrors

/-- The files of a location, and an error for each one that cannot be read. -/
def filesAt (disk : Disk) (store : ObjectStoreSettings) (accepts : String → Bool)
    (location : Location) : Files :=
  let failure (fault : SourceFault) : PolicyError := .badConfig location.text fault.message
  match readLocation disk store accepts location with
  | .error fault => ([], [failure fault])
  | .ok readings =>
    (readings.filterMap Except.toOption,
      readings.filterMap fun
        | .ok _ => none
        | .error fault => some (failure fault))

def sortByPath (files : List SourceFile) : List SourceFile :=
  files.mergeSort fun a b => a.path ≤ b.path

def dropRepeated : List SourceFile → List SourceFile
  | [] => []
  | file :: rest => file :: dropAfter file.path rest
where
  dropAfter (path : String) : List SourceFile → List SourceFile
    | [] => []
    | file :: rest =>
      if file.path = path then dropAfter path rest else file :: dropAfter file.path rest

def notUtf8 (path : String) : PolicyError := .badConfig path "policy file must be utf-8"

/-- The documents of a file. -/
def documentsOf (file : SourceFile) : Document.Contents :=
  match String.fromUTF8? file.contents with
  | some text => Document.ofText file.path text
  | none => ([], [notUtf8 file.path])

def moduleOf (file : SourceFile) : Except PolicyError LibraryModule :=
  match String.fromUTF8? file.contents with
  | some source => .ok { path := file.path, source }
  | none => .error (notUtf8 file.path)

def templatesOf (documents : List PolicyDocument) : List Template :=
  documents.filterMap fun
    | .template template => some template
    | .constraint _ => none

def constraintsOf (documents : List PolicyDocument) : List Constraint :=
  documents.filterMap fun
    | .template _ => none
    | .constraint constraint => some constraint

/-- The files of several locations, sorted, and the errors in the order of the locations. -/
def documentFiles (disk : Disk) (store : ObjectStoreSettings) (paths : List Location) :
    Files :=
  let files := paths.map (filesAt disk store isDocumentFile)
  (dropRepeated (sortByPath (files.flatMap (·.1))), files.flatMap (·.2))

def moduleFiles (disk : Disk) (store : ObjectStoreSettings) (path : Option Location) :
    Files :=
  match path with
  | none => ([], [])
  | some path =>
    let (files, errors) := filesAt disk store isModuleFile path
    (sortByPath files, errors)

/-- The library of some locations, or everything that is wrong with them. -/
def load (disk : Disk) (store : ObjectStoreSettings) (paths : List Location)
    (libraryPath : Option Location) : Except PolicyErrors PolicyLibrary :=
  let (files, pathErrors) := documentFiles disk store paths
  let contents := files.map documentsOf
  let documents := contents.flatMap (·.1)
  let (moduleFiles, moduleErrors) := moduleFiles disk store libraryPath
  let modules := moduleFiles.map moduleOf
  let utf8Errors := modules.filterMap fun
    | .ok _ => none
    | .error error => some error
  PolicyErrors.orValue
    (pathErrors ++ contents.flatMap (·.2) ++ moduleErrors ++ utf8Errors)
    { templates := templatesOf documents
      constraints := constraintsOf documents
      modules := modules.filterMap Except.toOption }

def configPlace : String := "policy"

def loadConfigured (disk : Disk) (config : Config) : Except PolicyErrors PolicyLibrary :=
  let located := do
    let paths ← config.policy.locations
    let libraryPath ← config.policy.libraryLocation
    return (paths, libraryPath)
  match located with
  | .error fault => .error [.badConfig configPlace fault.message]
  | .ok (paths, libraryPath) => load disk config.store paths libraryPath

end PolicyReview.Library
