/-! Ancestry paths: chains of segment names and ids joined by `/`, the outermost first.
The canonical form drops empty segments and, at the even positions where names stand,
lowers ASCII letters and replaces the aliases of the three container names. -/

namespace PolicyReview

/-- The containers of a resource, outermost first. -/
inductive SegmentName where
  | organizations
  | folders
  | projects
  deriving DecidableEq, Repr

namespace SegmentName

def text : SegmentName → String
  | organizations => "organizations"
  | folders => "folders"
  | projects => "projects"

def rank : SegmentName → Nat
  | organizations => 0
  | folders => 1
  | projects => 2

def mayPrecede (name next : SegmentName) : Bool :=
  (name == folders && next == folders) || name.rank < next.rank

end SegmentName

namespace Ancestry

def lower (segment : String) : String := String.ofList (segment.toList.map Char.toLower)

def segmentName? (segment : String) : Option SegmentName :=
  match lower segment with
  | "organizations" | "organization" | "orgs" | "org" => some .organizations
  | "folders" | "folder" => some .folders
  | "projects" | "project" => some .projects
  | _ => none

def canonicalName (segment : String) : String :=
  match segmentName? segment with
  | some name => name.text
  | none => lower segment

/-- Every segment of a path, the empty ones included. -/
def pieces (path : String) : List String := (path.toList.splitOn '/').map String.ofList

/-- The segments of a path, the empty ones dropped. -/
def segments (path : String) : List String := (pieces path).filter (· ≠ "")

def join (segments : List String) : String :=
  String.ofList (List.intercalate ['/'] (segments.map String.toList))

def canonicalSegments : List String → List String
  | [] => []
  | [name] => [canonicalName name]
  | name :: id :: rest => canonicalName name :: id :: canonicalSegments rest

def canonicalize (path : String) : String := join (canonicalSegments (segments path))

/-- The path of a list of ancestors, of which the first is the nearest. -/
def ofAncestors (ancestors : List String) : String := canonicalize (join ancestors.reverse)

end Ancestry

end PolicyReview
