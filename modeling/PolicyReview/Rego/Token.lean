import PolicyReview.Json.Reader

/-! Tokens of policy sources: words, numbers, texts and marks, each with what stands before it.
Texts in double quotes have the escapes of JSON, those in backquotes have none. -/

namespace PolicyReview.Rego

inductive Mark where
  | openBrace
  | closeBrace
  | openBracket
  | closeBracket
  | openParen
  | closeParen
  | dot
  | comma
  | semicolon
  | colon
  | define
  | assign
  | equal
  | notEqual
  | less
  | lessEqual
  | greater
  | greaterEqual
  deriving DecidableEq, Repr

inductive Token where
  | word (text : String)
  | number (value : Number)
  | quoted (text : String)
  | mark (mark : Mark)
  deriving DecidableEq, Repr

inductive Gap where
  | nothing
  | blank
  | lineBreak
  deriving DecidableEq, Repr

structure Placed where
  gap : Gap
  token : Token
  deriving DecidableEq, Repr

def keywords : List String :=
  ["as", "contains", "default", "else", "every", "false", "if", "import", "in", "not", "null",
    "package", "some", "true", "with"]

def isKeyword (word : String) : Bool := keywords.contains word

namespace Token

def isWordStart (c : Char) : Bool := c.isAlpha || c = '_'

def isWordChar (c : Char) : Bool := c.isAlphanum || c = '_'

/-- Passes over blanks and comments. `comment` says whether a comment is open. -/
def skipGap (gap : Gap) (comment : Bool) : List Char → Gap × List Char
  | [] => (gap, [])
  | c :: cs =>
    if c = '\n' then skipGap .lineBreak false cs
    else if comment then skipGap gap true cs
    else if Json.isBlank c then skipGap (if gap = .nothing then .blank else gap) false cs
    else if c = '#' then skipGap gap true cs
    else (gap, c :: cs)

def mark? : List Char → Option (Mark × List Char)
  | ':' :: '=' :: rest => some (.define, rest)
  | '=' :: '=' :: rest => some (.equal, rest)
  | '!' :: '=' :: rest => some (.notEqual, rest)
  | '<' :: '=' :: rest => some (.lessEqual, rest)
  | '>' :: '=' :: rest => some (.greaterEqual, rest)
  | '{' :: rest => some (.openBrace, rest)
  | '}' :: rest => some (.closeBrace, rest)
  | '[' :: rest => some (.openBracket, rest)
  | ']' :: rest => some (.closeBracket, rest)
  | '(' :: rest => some (.openParen, rest)
  | ')' :: rest => some (.closeParen, rest)
  | '.' :: rest => some (.dot, rest)
  | ',' :: rest => some (.comma, rest)
  | ';' :: rest => some (.semicolon, rest)
  | ':' :: rest => some (.colon, rest)
  | '=' :: rest => some (.assign, rest)
  | '<' :: rest => some (.less, rest)
  | '>' :: rest => some (.greater, rest)
  | _ => none

def number? (negative : Bool) (cs : List Char) : Option (Token × List Char) :=
  match Json.readNumber? negative cs with
  | some (.number value, rest) =>
    if rest.head?.any isWordChar then none else some (.number value, rest)
  | _ => none

def raw? (cs : List Char) : Option (Token × List Char) :=
  match cs.span (· ≠ '\x60') with
  | (text, _ :: rest) => some (.quoted (String.ofList text), rest)
  | (_, []) => none

def next? : List Char → Option (Token × List Char)
  | [] => none
  | c :: cs =>
    if isWordStart c then
      let (tail, rest) := cs.span isWordChar
      some (.word (String.ofList (c :: tail)), rest)
    else if c.isDigit then number? false (c :: cs)
    else if c = '-' then number? true cs
    else if c = '\x22' then
      (Json.readString? (cs.length + 1) [] cs).map fun (text, rest) => (.quoted text, rest)
    else if c = '\x60' then raw? cs
    else (mark? (c :: cs)).map fun (found, rest) => (.mark found, rest)

def listFrom : Nat → List Char → Option (List Placed)
  | 0, _ => none
  | fuel + 1, cs =>
    match skipGap .nothing false cs with
    | (_, []) => some []
    | (gap, rest) =>
      match next? rest with
      | some (token, rest) => (listFrom fuel rest).map (⟨gap, token⟩ :: ·)
      | none => none

/-- The tokens of a source, or nothing when some part of it is no token. -/
def list? (source : List Char) : Option (List Placed) := listFrom (source.length + 1) source

end Token

end PolicyReview.Rego
