import PolicyReview.Yaml.Token
import PolicyReview.Yaml.Cursor
import PolicyReview.Yaml.Token.Scalar

/-! Names, tags and directives of YAML texts. A tag is a handle and a suffix, or a text between
angle brackets, or an exclamation mark alone; a directive gives the version of the language or
says what a handle stands for. -/

namespace PolicyReview.Yaml

def followsName (c : Char) : Bool :=
  c = '?' || c = ':' || c = ',' || c = ']' || c = '\x7d' || c = '%' || c = '@' || c = '\x60'

def anchorName? (cursor : Cursor) : Option (String × Cursor) :=
  let (name, cursor) := (cursor.skip 1).spanWhile isNameChar
  if name.isEmpty then none
  else if endsWord cursor.rest || cursor.rest.head?.any followsName then
    some (String.ofList name, cursor)
  else none

/-! Tags. -/

def uriMarks : List Char :=
  [';', '/', '?', ':', '@', '&', '=', '+', '$', '.', '!', '~', '*', '\x27', '(', ')']

/-- Characters of a tag; within angle brackets those of flow collections are among them. -/
def isUriChar (bracketed : Bool) (c : Char) : Bool :=
  isNameChar c || uriMarks.contains c || (bracketed && (c = ',' || c = '[' || c = ']'))

def byteCount? (first : Nat) : Option Nat :=
  if first < 0x80 then some 1
  else if 0xc0 ≤ first ∧ first < 0xe0 then some 2
  else if 0xe0 ≤ first ∧ first < 0xf0 then some 3
  else if 0xf0 ≤ first ∧ first < 0xf8 then some 4
  else none

def percentByte? : List Char → Option (Nat × List Char)
  | '%' :: a :: b :: rest => do
    let high ← hexDigit? a
    let low ← hexDigit? b
    return (16 * high + low, rest)
  | _ => none

def percentTail? : Nat → Nat → List Char → Option (Nat × List Char)
  | 0, code, cs => some (code, cs)
  | count + 1, code, cs =>
    match percentByte? cs with
    | some (byte, rest) =>
      if 0x80 ≤ byte ∧ byte < 0xc0 then percentTail? count (64 * code + byte % 64) rest else none
    | none => none

/-- A character written in percent signs, and how many characters it takes up. -/
def percentChar? (cs : List Char) : Option (Char × Nat) := do
  let (first, rest) ← percentByte? cs
  let count ← byteCount? first
  let start := if count = 1 then first else first % Nat.pow 2 (7 - count)
  let (code, _) ← percentTail? (count - 1) start rest
  return (Char.ofNat code, 3 * count)

def uriFrom? (bracketed : Bool) : Nat → List Char → Cursor → Option (List Char × Cursor)
  | 0, read, cursor => some (read.reverse, cursor)
  | fuel + 1, read, cursor =>
    match cursor.rest with
    | [] => some (read.reverse, cursor)
    | c :: _ =>
      if c = '%' then
        match percentChar? cursor.rest with
        | some (c, used) => uriFrom? bracketed fuel (c :: read) (cursor.skip used)
        | none => none
      else if isUriChar bracketed c then uriFrom? bracketed fuel (c :: read) (cursor.skip 1)
      else some (read.reverse, cursor)

def uri? (bracketed : Bool) (cursor : Cursor) : Option (List Char × Cursor) :=
  uriFrom? bracketed cursor.size [] cursor

def handle? (cursor : Cursor) : Option (List Char × Cursor) :=
  if cursor.rest.head? = some '!' then
    let (name, cursor) := (cursor.skip 1).spanWhile isNameChar
    if cursor.rest.head? = some '!' then some ('!' :: name ++ ['!'], cursor.skip 1)
    else some ('!' :: name, cursor)
  else none

def isNamedHandle (handle : List Char) : Bool :=
  2 ≤ handle.length && handle.getLast? = some '!'

def tagParts? (cursor : Cursor) : Option ((List Char × List Char) × Cursor) :=
  match cursor.rest with
  | '!' :: '<' :: _ => do
    let (text, cursor) ← uri? true (cursor.skip 2)
    guard (!text.isEmpty && cursor.rest.head? = some '>')
    return (([], text), cursor.skip 1)
  | _ => do
    let (handle, cursor) ← handle? cursor
    let (text, cursor) ← uri? false cursor
    if isNamedHandle handle then
      guard (!text.isEmpty)
      return ((handle, text), cursor)
    else
      let suffix := handle.drop 1 ++ text
      return ((if suffix.isEmpty then ([], ['!']) else (['!'], suffix)), cursor)

/-- Reads a tag; a blank or a break follows it, or a comma in a flow collection. -/
def tagToken? (inFlow : Bool) (cursor : Cursor) : Option (Token × Cursor) := do
  let ((handle, suffix), cursor) ← tagParts? cursor
  guard (endsWord cursor.rest || (inFlow && cursor.rest.head? = some ','))
  return (.tag (String.ofList handle) (String.ofList suffix), cursor)

/-! Directives. -/

def versionNumber? (cursor : Cursor) : Option (Nat × Cursor) :=
  let (digits, cursor) := cursor.spanWhile Char.isDigit
  if digits.isEmpty || 9 < digits.length then none
  else some (digits.foldl (fun n c => 10 * n + (c.toNat - 48)) 0, cursor)

def versionToken? (cursor : Cursor) : Option (Token × Cursor) := do
  let (major, cursor) ← versionNumber? (cursor.skipWhile isBlank)
  guard (cursor.rest.head? = some '.')
  let (minor, cursor) ← versionNumber? (cursor.skip 1)
  return (.version major minor, cursor)

def shorthandToken? (cursor : Cursor) : Option (Token × Cursor) := do
  let (handle, cursor) ← handle? (cursor.skipWhile isBlank)
  guard (handle = ['!'] || isNamedHandle handle)
  guard cursor.atBlank
  let (text, cursor) ← uri? true (cursor.skipWhile isBlank)
  guard (!text.isEmpty && endsWord cursor.rest)
  return (.shorthand (String.ofList handle) (String.ofList text), cursor)

def directive? (cursor : Cursor) : Option (Token × Cursor) := do
  let (name, cursor) := (cursor.skip 1).spanWhile isNameChar
  guard (endsWord cursor.rest)
  let (token, cursor) ← match String.ofList name with
    | "YAML" => versionToken? cursor
    | "TAG" => shorthandToken? cursor
    | _ => none
  let cursor ← cursor.finishLine?
  return (token, cursor)

end PolicyReview.Yaml
