/-! A place in a YAML text: what is left of it, and how many characters, lines and columns were
passed. A line ends with a line feed, a carriage return, both of them, a next-line character
or a Unicode separator; all but the separators are read as a line feed. -/

namespace PolicyReview.Yaml

structure Cursor where
  rest : List Char
  size : Nat
  index : Nat := 0
  line : Nat := 0
  column : Nat := 0
  deriving Repr

def isBlank (c : Char) : Bool := c = ' ' || c = '\t'

def isSeparator (c : Char) : Bool := c = '\u2028' || c = '\u2029'

def isBreak (c : Char) : Bool := c = '\n' || c = '\r' || c = '\u0085' || isSeparator c

/-- Letters of names: ASCII letters and digits, the underscore and the hyphen. -/
def isNameChar (c : Char) : Bool := c.isAlphanum || c = '_' || c = '-'

def isAllowed (c : Char) : Bool :=
  c = '\t' || c = '\n' || c = '\r' || (' ' ≤ c && c ≤ '~') || c = '\u0085' ||
    ('\u00a0' ≤ c && c ≤ '\ufffd') || 0x10000 ≤ c.toNat

def endsWord : List Char → Bool
  | [] => true
  | c :: _ => isBlank c || isBreak c

def startsIndicator : List Char → Bool
  | '-' :: '-' :: '-' :: rest => endsWord rest
  | '.' :: '.' :: '.' :: rest => endsWord rest
  | _ => false

namespace Cursor

def ofChars (cs : List Char) : Cursor := { rest := cs, size := cs.length + 1 }

def skip (count : Nat) (cursor : Cursor) : Cursor :=
  { cursor with
    rest := cursor.rest.drop count
    index := cursor.index + count
    column := cursor.column + count }

/-- Passes the characters up to the first one that a condition does not hold of. -/
def spanWhile (condition : Char → Bool) (cursor : Cursor) : List Char × Cursor :=
  let (taken, rest) := cursor.rest.span condition
  (taken, { cursor with
    rest
    index := cursor.index + taken.length
    column := cursor.column + taken.length })

def skipWhile (condition : Char → Bool) (cursor : Cursor) : Cursor :=
  (cursor.spanWhile condition).2

def nextLine (cursor : Cursor) (count : Nat) : Cursor :=
  { cursor with
    rest := cursor.rest.drop count
    index := cursor.index + count
    line := cursor.line + 1
    column := 0 }

def takeBreak (cursor : Cursor) : List Char × Cursor :=
  match cursor.rest with
  | '\r' :: '\n' :: _ => (['\n'], cursor.nextLine 2)
  | c :: _ =>
    if isSeparator c then ([c], cursor.nextLine 1)
    else if isBreak c then (['\n'], cursor.nextLine 1)
    else ([], cursor)
  | [] => ([], cursor)

def atEnd (cursor : Cursor) : Bool := cursor.rest.isEmpty

def atBreak (cursor : Cursor) : Bool := cursor.rest.head?.any isBreak

def atBlank (cursor : Cursor) : Bool := cursor.rest.head?.any isBlank

def atIndicator (cursor : Cursor) : Bool := cursor.column == 0 && startsIndicator cursor.rest

def skipComment (cursor : Cursor) : Cursor :=
  if cursor.rest.head? = some '#' then cursor.skipWhile fun c => !isBreak c else cursor

/-- Passes what may follow on a line whose content has ended: blanks, a comment and the break. -/
def finishLine? (cursor : Cursor) : Option Cursor :=
  let cursor := (cursor.skipWhile isBlank).skipComment
  if cursor.atEnd || cursor.atBreak then some cursor.takeBreak.2 else none

end Cursor

end PolicyReview.Yaml
