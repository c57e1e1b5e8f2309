import PolicyReview.Text.Blank

/-! Qualification of imports. An `import data.…` line gives its path a short name; in code, every
use of that name before a point, and not after one, is replaced by the path. The names are
collected line by line, the text being cut at `#`; the uses are found by a lexer that knows
comments, strings and raw strings. -/

namespace PolicyReview.Rego

inductive Lexeme where
  | comment (text : List Char)
  | quoted (text : List Char)
  | raw (text : List Char)
  | word (text : List Char)
  | other (c : Char)
  deriving DecidableEq, Repr

namespace Lexeme

def text : Lexeme → List Char
  | .comment text => text
  | .quoted text => text
  | .raw text => text
  | .word text => text
  | .other c => [c]

def isWordStart (c : Char) : Bool := c.isAlpha || c = '_'

def isWordChar (c : Char) : Bool := c.isAlphanum || c = '_'

def spanQuoted : List Char → List Char × List Char
  | [] => ([], [])
  | '\\' :: c :: rest =>
    let (text, rest) := spanQuoted rest
    ('\\' :: c :: text, rest)
  | c :: rest =>
    if c = '\x22' ∨ c = '\n' then ([c], rest)
    else
      let (text, rest) := spanQuoted rest
      (c :: text, rest)

def spanRaw (cs : List Char) : List Char × List Char :=
  match cs.span (· ≠ '\x60') with
  | (text, c :: rest) => (text ++ [c], rest)
  | (text, []) => (text, [])

/-- The first lexeme of a text that starts with `c`, and the rest. -/
def next (c : Char) (cs : List Char) : Lexeme × List Char :=
  if c = '#' then
    let (text, rest) := cs.span (· ≠ '\n')
    (.comment (c :: text), rest)
  else if c = '\x22' then
    let (text, rest) := spanQuoted cs
    (.quoted (c :: text), rest)
  else if c = '\x60' then
    let (text, rest) := spanRaw cs
    (.raw (c :: text), rest)
  else if isWordStart c then
    let (text, rest) := cs.span isWordChar
    (.word (c :: text), rest)
  else (.other c, cs)

def listFrom : Nat → List Char → List Lexeme
  | 0, _ => []
  | _, [] => []
  | fuel + 1, c :: cs =>
    let (lexeme, rest) := next c cs
    lexeme :: listFrom fuel rest

/-- The lexemes of a text; joined again they are the text. -/
def list (cs : List Char) : List Lexeme := listFrom cs.length cs

end Lexeme

/-- Short names with the paths that they stand for; a later entry hides an earlier one. -/
abbrev AliasTable := List (List Char × List Char)

namespace AliasTable

def isIdentifier : List Char → Bool
  | [] => false
  | c :: rest => Lexeme.isWordStart c && rest.all Lexeme.isWordChar

def entry? (path short : List Char) : Option (List Char × List Char) :=
  match path.splitOn '.' with
  | ['d', 'a', 't', 'a'] :: segments@(_ :: _) =>
    if segments.all isIdentifier && isIdentifier short then some (short, path) else none
  | _ => none

def ofLine? (line : List Char) : Option (List Char × List Char) :=
  let code := Text.trimChars (line.takeWhile (· ≠ '#'))
  let lead := ['i', 'm', 'p', 'o', 'r', 't', ' ']
  if lead.isPrefixOf code then
    match Text.words (code.drop lead.length) with
    | [path] => entry? path ((path.splitOn '.').getLast?.getD [])
    | [path, ['a', 's'], short] => entry? path short
    | _ => none
  else none

/-- The names that the lines of a text import, the last line first. -/
def ofSource (source : List Char) : AliasTable :=
  ((source.splitOn '\n').filterMap ofLine?).reverse

end AliasTable

def qualifyLexemes (aliases : AliasTable) (afterPoint : Bool) : List Lexeme → List Char
  | [] => []
  | .word text :: rest =>
    let beforePoint := rest.head? == some (.other '.')
    let written := match aliases.lookup text with
      | some path => if beforePoint && !afterPoint then path else text
      | none => text
    written ++ qualifyLexemes aliases false rest
  | lexeme :: rest => lexeme.text ++ qualifyLexemes aliases (lexeme == .other '.') rest

def qualifyChars (source : List Char) : List Char :=
  qualifyLexemes (AliasTable.ofSource source) false (Lexeme.list source)

/-- Replaces the short names of imported paths by the paths. -/
def qualifyImports (source : String) : String := String.ofList (qualifyChars source.toList)

end PolicyReview.Rego
