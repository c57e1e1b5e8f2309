import PolicyReview.Yaml.Token.Property

/-! Reads the tokens of a YAML text. Indentation opens and closes collections. A token that may
be the first one of a key is remembered until a colon shows that it is, or until the line
ends; then the key and, where it starts a collection, the collection are announced at the
place where that token stands. -/

namespace PolicyReview.Yaml

structure KeyStart where
  required : Bool
  number : Nat
  index : Nat
  line : Nat
  column : Nat
  deriving Repr

/-- The longest text that a key may have which is not announced by a question mark. -/
def maxKeyLength : Nat := 1024

structure Lexer where
  cursor : Cursor
  tokens : List Token := []
  count : Nat := 0
  margin : Nat := 0
  outerMargins : List Nat := []
  keys : List (Option KeyStart) := [none]
  keyAllowed : Bool := true

namespace Lexer

def inFlow (lexer : Lexer) : Bool := 1 < lexer.keys.length

def push (token : Token) (lexer : Lexer) : Lexer :=
  { lexer with tokens := token :: lexer.tokens, count := lexer.count + 1 }

/-- Puts tokens, the last one first, at the place before which there are `number` tokens. -/
def insertAt (number : Nat) (news : List Token) (lexer : Lexer) : Lexer :=
  let later := lexer.count - number
  { lexer with
    tokens := lexer.tokens.take later ++ news ++ lexer.tokens.drop later
    count := lexer.count + news.length }

def emit (token : Token) (cursor : Cursor) (lexer : Lexer) : Lexer :=
  { lexer.push token with cursor }

def emitMark (token : Token) (length : Nat) (lexer : Lexer) : Lexer :=
  lexer.emit token (lexer.cursor.skip length)

def allowKey (allowed : Bool) (lexer : Lexer) : Lexer := { lexer with keyAllowed := allowed }

/-! Where keys may start. -/

def isStale (cursor : Cursor) (key : KeyStart) : Bool :=
  key.line < cursor.line || key.index + maxKeyLength < cursor.index

/-- Forgets the starts of keys that can no longer be one; a required key may not be forgotten. -/
def dropStale? (lexer : Lexer) : Option Lexer :=
  if lexer.keys.any (·.any fun key => key.required && isStale lexer.cursor key) then none
  else some { lexer with keys := lexer.keys.map (·.filter fun key => !isStale lexer.cursor key) }

def dropKey? (lexer : Lexer) : Option Lexer :=
  match lexer.keys with
  | some key :: outer => if key.required then none else some { lexer with keys := none :: outer }
  | _ => some lexer

def saveKey? (lexer : Lexer) : Option Lexer :=
  if lexer.keyAllowed then
    lexer.dropKey?.map fun lexer =>
      let key : KeyStart := {
        required := !lexer.inFlow && lexer.margin = lexer.cursor.column + 1
        number := lexer.count
        index := lexer.cursor.index
        line := lexer.cursor.line
        column := lexer.cursor.column }
      { lexer with keys := some key :: lexer.keys.drop 1 }
  else some lexer

/-! Indentation. -/

def opens (column : Nat) (lexer : Lexer) : Bool := !lexer.inFlow && lexer.margin ≤ column

def indentTo (column : Nat) (lexer : Lexer) : Lexer :=
  { lexer with margin := column + 1, outerMargins := lexer.margin :: lexer.outerMargins }

def openHere (token : Token) (lexer : Lexer) : Lexer :=
  let column := lexer.cursor.column
  if lexer.opens column then (lexer.push token).indentTo column else lexer

def closeTo (margin : Nat) : List Nat → Lexer → Lexer
  | [], lexer => lexer
  | outer :: rest, lexer =>
    if margin < lexer.margin then
      closeTo margin rest { lexer.push .blockEnd with margin := outer, outerMargins := rest }
    else lexer

def unindent (margin : Nat) (lexer : Lexer) : Lexer :=
  if lexer.inFlow then lexer else closeTo margin lexer.outerMargins lexer

/-! Tokens. -/

/-- Passes blanks, breaks and comments. Where a key may start, tabs are no blanks. -/
def skipGap : Nat → Lexer → Lexer
  | 0, lexer => lexer
  | fuel + 1, lexer =>
    let tabs := lexer.inFlow || !lexer.keyAllowed
    let cursor := lexer.cursor.skipWhile fun c => c = ' ' || (tabs && c = '\t')
    let cursor := cursor.skipComment
    if cursor.atBreak then
      skipGap fuel { lexer with
        cursor := cursor.takeBreak.2
        keyAllowed := lexer.keyAllowed || !lexer.inFlow }
    else { lexer with cursor }

def endStream? (lexer : Lexer) : Option Lexer :=
  (lexer.unindent 0).dropKey?.map fun lexer => lexer.push .streamEnd

def lexDirective? (lexer : Lexer) : Option Lexer := do
  let lexer ← (lexer.unindent 0).dropKey?
  let (token, cursor) ← directive? lexer.cursor
  return (lexer.allowKey false).emit token cursor

def lexIndicator? (token : Token) (lexer : Lexer) : Option Lexer := do
  let lexer ← (lexer.unindent 0).dropKey?
  return (lexer.allowKey false).emitMark token 3

def openFlow? (token : Token) (lexer : Lexer) : Option Lexer := do
  let lexer ← lexer.saveKey?
  guard (lexer.keys.length ≤ maxDepth)
  return ({ lexer with keys := none :: lexer.keys }.allowKey true).emitMark token 1

def closeFlow? (token : Token) (lexer : Lexer) : Option Lexer := do
  let lexer ← lexer.dropKey?
  let keys := if lexer.inFlow then lexer.keys.drop 1 else lexer.keys
  return ({ lexer with keys }.allowKey false).emitMark token 1

def lexFlowEntry? (lexer : Lexer) : Option Lexer := do
  let lexer ← lexer.dropKey?
  return (lexer.allowKey true).emitMark .flowEntry 1

/-- Opens a block collection for a mark, if there is none; the mark has to stand where a key
may start. -/
def openForMark? (token : Token) (lexer : Lexer) : Option Lexer :=
  if lexer.inFlow then some lexer
  else if lexer.keyAllowed then some (lexer.openHere token)
  else none

def lexBlockEntry? (lexer : Lexer) : Option Lexer := do
  let lexer ← lexer.openForMark? .blockSequenceStart
  let lexer ← lexer.dropKey?
  return (lexer.allowKey true).emitMark .blockEntry 1

def lexKey? (lexer : Lexer) : Option Lexer := do
  let lexer ← lexer.openForMark? .blockMappingStart
  let lexer ← lexer.dropKey?
  return (lexer.allowKey (!lexer.inFlow)).emitMark .key 1

def lexValue? (lexer : Lexer) : Option Lexer :=
  match lexer.keys with
  | some key :: outer =>
    let starts := lexer.opens key.column
    let lexer := lexer.insertAt key.number
      (if starts then [.key, .blockMappingStart] else [.key])
    let lexer := if starts then lexer.indentTo key.column else lexer
    some (({ lexer with keys := none :: outer }.allowKey false).emitMark .value 1)
  | _ => do
    let lexer ← lexer.openForMark? .blockMappingStart
    return (lexer.allowKey (!lexer.inFlow)).emitMark .value 1

def lexAnchor? (token : String → Token) (lexer : Lexer) : Option Lexer := do
  let lexer ← lexer.saveKey?
  let (name, cursor) ← anchorName? lexer.cursor
  return (lexer.allowKey false).emit (token name) cursor

def lexTag? (lexer : Lexer) : Option Lexer := do
  let lexer ← lexer.saveKey?
  let (token, cursor) ← tagToken? lexer.inFlow lexer.cursor
  return (lexer.allowKey false).emit token cursor

def lexBlockScalar? (literal : Bool) (lexer : Lexer) : Option Lexer := do
  let lexer ← lexer.dropKey?
  let (text, cursor) ← blockScalar? literal lexer.margin lexer.cursor
  return (lexer.allowKey true).emit (.scalar false (String.ofList text)) cursor

def lexQuoted? (single : Bool) (lexer : Lexer) : Option Lexer := do
  let lexer ← lexer.saveKey?
  let (text, cursor) ← quotedScalar? single lexer.cursor
  return (lexer.allowKey false).emit (.scalar false (String.ofList text)) cursor

def lexPlain? (lexer : Lexer) : Option Lexer := do
  let lexer ← lexer.saveKey?
  let scalar ← plainScalar? lexer.inFlow lexer.margin lexer.cursor
  return (lexer.allowKey scalar.endsLine).emit
    (.scalar true (String.ofList scalar.text)) scalar.cursor

def marks : List Char :=
  ['-', '?', ':', ',', '[', ']', '\x7b', '\x7d', '#', '&', '*', '!', '|', '>', '\x27', '\x22',
    '%', '@', '\x60']

def startsPlain (inFlow : Bool) (c : Char) (rest : List Char) : Bool :=
  !(isBlank c || isBreak c || marks.contains c) ||
    (c = '-' && !rest.head?.any isBlank) ||
    (!inFlow && (c = '?' || c = ':') && !endsWord rest)

def lexToken? (c : Char) (rest : List Char) (lexer : Lexer) : Option Lexer :=
  let inFlow := lexer.inFlow
  if lexer.cursor.column = 0 && c = '%' then lexer.lexDirective?
  else if lexer.cursor.atIndicator then
    lexer.lexIndicator? (if c = '-' then .documentStart else .documentEnd)
  else if c = '[' then lexer.openFlow? .flowSequenceStart
  else if c = '\x7b' then lexer.openFlow? .flowMappingStart
  else if c = ']' then lexer.closeFlow? .flowSequenceEnd
  else if c = '\x7d' then lexer.closeFlow? .flowMappingEnd
  else if c = ',' then lexer.lexFlowEntry?
  else if c = '-' && endsWord rest then lexer.lexBlockEntry?
  else if c = '?' && (inFlow || endsWord rest) then lexer.lexKey?
  else if c = ':' && (inFlow || endsWord rest) then lexer.lexValue?
  else if c = '*' then lexer.lexAnchor? .reference
  else if c = '&' then lexer.lexAnchor? .anchor
  else if c = '!' then lexer.lexTag?
  else if c = '|' && !inFlow then lexer.lexBlockScalar? true
  else if c = '>' && !inFlow then lexer.lexBlockScalar? false
  else if c = '\x27' then lexer.lexQuoted? true
  else if c = '\x22' then lexer.lexQuoted? false
  else if startsPlain inFlow c rest then lexer.lexPlain?
  else none

def next? (lexer : Lexer) : Option Lexer := do
  let lexer ← (lexer.skipGap lexer.cursor.size).dropStale?
  let lexer := lexer.unindent (lexer.cursor.column + 1)
  match lexer.cursor.rest with
  | [] => lexer.endStream?
  | c :: rest => lexer.lexToken? c rest

def settled (lexer : Lexer) : List Token :=
  let pending := lexer.keys.filterMap fun key =>
    (key.filter fun key => !isStale lexer.cursor key).map (·.number)
  let number := pending.foldl min lexer.count
  lexer.tokens.drop (lexer.count - number)

/-- Reads tokens to the end of the text. A text that is not whole has a fault there. -/
def run (whole : Bool) : Nat → Lexer → List Token
  | 0, lexer => (Token.fault :: lexer.settled).reverse
  | fuel + 1, lexer =>
    match lexer.next? with
    | none => (Token.fault :: lexer.settled).reverse
    | some after =>
      if after.tokens.head? = some .streamEnd then
        if whole then after.tokens.reverse else (Token.fault :: lexer.settled).reverse
      else run whole fuel after

end Lexer

def pieceSize : Nat := 16384

/-- The pieces of a text before the first one that holds a character which is not allowed. -/
def wholePieces : Nat → List Char → List Char → List Char → List Char
  | _, _, done, [] => done
  | room, piece, done, c :: cs =>
    if !isAllowed c then done
    else if c.utf8Size ≤ room then wholePieces (room - c.utf8Size) (c :: piece) done cs
    else wholePieces (pieceSize - c.utf8Size) [c] (piece ++ done) cs

def byteOrderMark : Char := '\ufeff'

def dropMark (cs : List Char) : List Char :=
  if cs.head? = some byteOrderMark then cs.drop 1 else cs

/-- The tokens of a text. -/
def Token.list (text : String) : List Token :=
  let cs := dropMark text.toList
  let whole := cs.all isAllowed
  let readable := if whole then cs else (wholePieces pieceSize [] [] cs).reverse
  let cursor := Cursor.ofChars readable
  let cursor := if readable.head? = some byteOrderMark then cursor.skip 1 else cursor
  Lexer.run whole (2 * cursor.size) { cursor }

end PolicyReview.Yaml
