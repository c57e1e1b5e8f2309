import PolicyReview.Url.Host

/-! URLs that stand for themselves, without a base. A URL has a scheme, after two slashes a host
with a user before it and a port after it, and a path whose dot segments are removed; tabs
and line breaks in it do not count, and neither does what follows a question or number mark
when the path is read. -/

namespace PolicyReview

structure Url where
  scheme : String
  host : Url.Host
  path : String
  deriving DecidableEq, Repr

namespace Url

/-- Schemes differ in how their hosts are read and in whether a backslash is a slash. -/
inductive SchemeKind where
  | file
  | web
  | other
  deriving DecidableEq, Repr

namespace SchemeKind

def of (scheme : String) : SchemeKind :=
  if scheme = "file" then file
  else if scheme ∈ ["http", "https", "ws", "wss", "ftp"] then web
  else other

def isSlash (kind : SchemeKind) (c : Char) : Bool := c = '/' || (kind != other && c = '\\')

def endsAuthority (kind : SchemeKind) (c : Char) : Bool := kind.isSlash c || c = '?' || c = '#'

end SchemeKind

/-- The characters of a text that count: no blanks or control characters at its ends, and no
tabs and line breaks at all. -/
def significant (text : String) : List Char :=
  let atEnds : Char → Bool := fun c => c ≤ ' '
  (((text.toList.dropWhile atEnds).reverse.dropWhile atEnds).reverse).filter
    fun c => !(c = '\t' || c = '\n' || c = '\r')

def scheme? (cs : List Char) : Option (String × List Char) :=
  let (name, rest) := cs.span fun c => c.isAlphanum || c = '+' || c = '-' || c = '.'
  match name, rest with
  | first :: _, ':' :: rest =>
    if first.isAlpha then some (String.ofList (name.map Char.toLower), rest) else none
  | _, _ => none

/-! Paths. -/

def beforeQuery (cs : List Char) : List Char := cs.takeWhile fun c => c ≠ '?' && c ≠ '#'

def withPoints : List Char → List Char
  | '%' :: '2' :: e :: rest =>
    if e = 'e' || e = 'E' then '.' :: withPoints rest else '%' :: '2' :: withPoints (e :: rest)
  | c :: rest => c :: withPoints rest
  | [] => []

def isDot (segment : List Char) : Bool := withPoints segment = ['.']

def isDotDot (segment : List Char) : Bool := withPoints segment = ['.', '.']

def isDrive : List Char → Bool
  | [letter, mark] => letter.isAlpha && (mark = ':' || mark = '|')
  | _ => false

abbrev Segments := List (List Char)

def dropSegment : Segments → Segments
  | [] => []
  | last :: rest => if isDrive last then last :: rest else rest

def normalDrive (kind : SchemeKind) (before : Segments) (segment : List Char) : List Char :=
  if kind = .file && before.isEmpty && isDrive segment then [segment.headD ' ', ':'] else segment

/-- Adds the segments of a path that are separated by slashes. A point stands for nothing and
two points for the segment before, and at the end both leave an empty segment. -/
def addSegments (kind : SchemeKind) (before : Segments) : List (List Char) → Segments
  | [] => before
  | segment :: rest =>
    let leave (kept : Segments) : Segments := if rest.isEmpty then [] :: kept else kept
    let after :=
      if isDotDot segment then leave (dropSegment before)
      else if isDot segment then leave before
      else normalDrive kind before segment :: before
    addSegments kind after rest

def segmentsOf (kind : SchemeKind) (cs : List Char) : List (List Char) :=
  let encoded := Percent.encode Percent.inPath (beforeQuery cs)
  (addSegments kind [] (encoded.splitOnP kind.isSlash)).reverse

def joinSegments (segments : List (List Char)) : String :=
  String.ofList ('/' :: List.intercalate ['/'] segments)

def pathAfterHost (kind : SchemeKind) (cs : List Char) : String :=
  match beforeQuery cs with
  | [] => if kind = .other then "" else "/"
  | c :: rest => joinSegments (segmentsOf kind (if kind.isSlash c then rest else c :: rest))

/-! Hosts with users and ports. -/

def splitUser (cs : List Char) : Option (List Char) × List Char :=
  match cs.reverse.span (· ≠ '@') with
  | (host, _ :: user) => (some user.reverse, host.reverse)
  | (_, []) => (none, cs)

def splitPort (bracketed : Bool) : List Char → List Char × List Char
  | [] => ([], [])
  | c :: rest =>
    if c = ':' && !bracketed then ([], c :: rest)
    else
      let (host, port) := splitPort (if c = '[' then true else if c = ']' then false else bracketed) rest
      (c :: host, port)

def checkPort (cs : List Char) : Except Fault Unit :=
  if cs.all Char.isDigit && cs.foldl (fun n c => 10 * n + (c.toNat - 48)) 0 < 65536 then .ok ()
  else .error .badPort

def namesUser (user : List Char) : Bool := user ≠ [] && user ≠ [':']

def hostOf (kind : SchemeKind) (cs : List Char) : Except Fault Host :=
  match kind with
  | .other => Host.ofOpaque cs
  | _ => if cs.isEmpty then .error .emptyHost else Host.ofDomain cs

def authority (kind : SchemeKind) (cs : List Char) : Except Fault (Host × List Char) := do
  let (text, rest) := cs.span fun c => !kind.endsAuthority c
  let (user, place) := splitUser text
  if user = some [] && place.isEmpty && !rest.isEmpty then throw .emptyHost
  let (name, port) := splitPort false place
  let host ← hostOf kind name
  let stray := port.dropWhile (· ≠ '\\')
  if host = .name "" && !port.isEmpty then throw .emptyHost
  checkPort (port.drop 1 |>.takeWhile (· ≠ '\\'))
  if host = .name "" && user.any namesUser then throw .emptyHost
  return (host, stray ++ rest)

def isLocalHost (host : Host) : Bool := host = .name "localhost"

def ofFile (cs : List Char) : Except Fault Url :=
  let kind := SchemeKind.file
  match cs with
  | a :: b :: rest =>
    if kind.isSlash a && kind.isSlash b then do
      let (name, path) := rest.span fun c => !kind.endsAuthority c
      if isDrive name then return ⟨"file", .name "", joinSegments (segmentsOf kind rest)⟩
      let host ← if name.isEmpty then pure (.name "") else Host.ofDomain name
      let path := pathAfterHost kind path
      let onDrive := isDrive ((path.toList.drop 1).takeWhile (· ≠ '/'))
      return ⟨"file", if isLocalHost host || onDrive then .name "" else host, path⟩
    else .ok ⟨"file", .name "", pathAfterHost kind cs⟩
  | _ => .ok ⟨"file", .name "", pathAfterHost kind cs⟩

/-- A URL in a scheme other than that of files, read from behind the colon of its scheme. A web
scheme needs no slashes before the host, and may have any number of them. -/
def ofOther (scheme : String) (cs : List Char) : Except Fault Url := do
  let kind := SchemeKind.of scheme
  match kind, cs with
  | .other, '/' :: '/' :: rest =>
    let (host, path) ← authority kind rest
    return ⟨scheme, host, pathAfterHost kind path⟩
  | .other, _ => return ⟨scheme, .name "", String.ofList (beforeQuery cs)⟩
  | _, _ =>
    let (host, path) ← authority kind (cs.dropWhile kind.isSlash)
    return ⟨scheme, host, pathAfterHost kind path⟩

def read (text : String) : Except Fault Url :=
  match scheme? (significant text) with
  | none => .error .noScheme
  | some (scheme, rest) => if scheme = "file" then ofFile rest else ofOther scheme rest

/-- The local path of a file's URL, when it has no host. A drive at its end is a folder. -/
def filePath? (url : Url) : Option Text.Bytes :=
  if url.scheme = "file" ∧ url.host = .name "" then
    let bytes := Percent.decode ('/' :: url.path.toList.dropWhile (· = '/'))
    let endsInDrive := 2 < bytes.length &&
      isDrive ((bytes.drop (bytes.length - 2)).map fun byte => Char.ofNat byte.toNat)
    some (if endsInDrive then bytes ++ Text.bytes "/" else bytes)
  else none

end Url

end PolicyReview
