import PolicyReview.Ancestry

/-! Globs over ancestry paths. A pattern is a list of tokens that an automaton accepts: every
segment name is followed by one id token, names come in order, and a wildcard at the place
of a name opens a stretch of ids and wildcards. Each token of an accepted pattern matches
one segment, `**` any number of them and `d**` one segment that starts with `d` and any
number after it. -/

namespace PolicyReview

inductive GlobToken where
  | name (segment : SegmentName)
  | id (digits : String)
  | idPrefixed (digits : String)
  | idPrefixedDeep (digits : String)
  | any
  | anyDeep
  deriving DecidableEq, Repr

namespace GlobToken

def text : GlobToken → String
  | .name segment => segment.text
  | .id digits => digits
  | .idPrefixed digits => digits ++ "*"
  | .idPrefixedDeep digits => digits ++ "**"
  | .any => "*"
  | .anyDeep => "**"

def isWildcard : GlobToken → Bool
  | .any | .anyDeep => true
  | _ => false

end GlobToken

inductive GlobFault where
  | emptyPattern
  | emptySegment
  | badSuffix
  | unknownToken
  | idExpected
  | outOfOrder
  | strayId
  deriving DecidableEq, Repr

def GlobFault.reason : GlobFault → String
  | emptyPattern => "pattern is empty"
  | emptySegment => "empty segment"
  | badSuffix => "id suffix must be `*` or `**`"
  | unknownToken => "unknown token"
  | idExpected => "segment name must be followed by an id"
  | outOfOrder => "segment names out of order"
  | strayId => "id must follow a segment name"

structure GlobError where
  token : String
  fault : GlobFault
  deriving DecidableEq, Repr

def GlobError.message (error : GlobError) : String :=
  "invalid token `" ++ error.token ++ "`: " ++ error.fault.reason

inductive GlobState where
  | start
  | expectId (name : SegmentName)
  | afterId (last : SegmentName)
  | wild (last : Option SegmentName)
  deriving DecidableEq, Repr

namespace GlobState

def nameAfter (last : Option SegmentName) (next : SegmentName) : Except GlobFault GlobState :=
  match last with
  | none => .ok (.expectId next)
  | some last => if last.mayPrecede next then .ok (.expectId next) else .error .outOfOrder

def advance : GlobState → GlobToken → Except GlobFault GlobState
  | .expectId _, .name _ => .error .idExpected
  | .expectId name, _ => .ok (.afterId name)
  | .start, .name next => nameAfter none next
  | .afterId last, .name next => nameAfter (some last) next
  | .wild last, .name next => nameAfter last next
  | .start, token => if token.isWildcard then .ok (.wild none) else .error .strayId
  | .afterId last, token => if token.isWildcard then .ok (.wild (some last)) else .error .strayId
  | .wild last, _ => .ok (.wild last)

end GlobState

/-- A list of tokens that the automaton accepts, as `Glob.parse` returns it. -/
structure Glob where
  tokens : List GlobToken
  deriving DecidableEq, Repr

namespace Glob

def isPositive (digits : List Char) : Bool :=
  digits.all Char.isDigit && digits.any (· ≠ '0')

def classify (raw : String) : Except GlobFault GlobToken :=
  if raw = "" then .error .emptySegment
  else if raw = "*" then .ok .any
  else if raw = "**" then .ok .anyDeep
  else
    match Ancestry.segmentName? raw with
    | some name => .ok (.name name)
    | none =>
      let (digits, suffix) := raw.toList.span (· ≠ '*')
      if isPositive digits then
        match suffix with
        | [] => .ok (.id (String.ofList digits))
        | ['*'] => .ok (.idPrefixed (String.ofList digits))
        | ['*', '*'] => .ok (.idPrefixedDeep (String.ofList digits))
        | _ => .error .badSuffix
      else .error .unknownToken

/-- The tokens of the remaining segments from a state of the automaton. The text of a token is
its raw segment, except for a name that ends the pattern, which is given in canonical form. -/
def parseFrom : GlobState → List String → Except GlobError (List GlobToken)
  | .expectId name, [] => .error ⟨name.text, .idExpected⟩
  | _, [] => .ok []
  | state, raw :: rest =>
    match classify raw with
    | .error fault => .error ⟨raw, fault⟩
    | .ok token =>
      match state.advance token with
      | .error fault => .error ⟨raw, fault⟩
      | .ok next => (parseFrom next rest).map (token :: ·)

def parse (pattern : String) : Except GlobError Glob :=
  if pattern = "" then .error ⟨"", .emptyPattern⟩
  else (parseFrom .start (Ancestry.pieces pattern)).map Glob.mk

/-- The canonical text of a glob. -/
def text (glob : Glob) : String := Ancestry.join (glob.tokens.map GlobToken.text)

def suffixes {α : Type} : List α → List (List α)
  | [] => [[]]
  | x :: xs => (x :: xs) :: suffixes xs

def startsWith (start segment : String) : Bool := start.toList.isPrefixOf segment.toList

def matchesOne : GlobToken → String → Bool
  | .name name, segment => name.text == segment
  | .id digits, segment => digits == segment
  | .idPrefixed digits, segment => startsWith digits segment
  | .any, _ => true
  | _, _ => false

def matchesSegments : List GlobToken → List String → Bool
  | [], segments => segments.isEmpty
  | .anyDeep :: rest, segments => (suffixes segments).any (matchesSegments rest)
  | .idPrefixedDeep digits :: rest, segments =>
    match segments with
    | [] => false
    | segment :: tail =>
      startsWith digits segment && (suffixes tail).any (matchesSegments rest)
  | token :: rest, segments =>
    match segments with
    | [] => false
    | segment :: tail => matchesOne token segment && matchesSegments rest tail

/-- Whether the non-empty segments of a path match the tokens of a glob. -/
def matchesPath (glob : Glob) (path : String) : Bool :=
  matchesSegments glob.tokens (Ancestry.segments path)

end Glob

end PolicyReview
