/-! Strings of TOML documents. A basic string has escapes and a literal one has none; either may
run over several lines between three quotes, where a line break right after the first three
does not count. -/

namespace PolicyReview.Toml

def isBlank (c : Char) : Bool := c = ' ' || c = '\t'

def isPrintable (c : Char) : Bool := c = '\t' || (' ' ≤ c && c ≠ '\x7f')

def afterBreak? : List Char → Option (List Char)
  | '\n' :: rest => some rest
  | '\r' :: '\n' :: rest => some rest
  | _ => none

def hexValue? (c : Char) : Option Nat :=
  if c.isDigit then some (c.toNat - 48)
  else if 'a' ≤ c && c ≤ 'f' then some (c.toNat - 87)
  else if 'A' ≤ c && c ≤ 'F' then some (c.toNat - 55)
  else none

/-- A character given by a number of hexadecimal digits, and what follows them. -/
def hexChar? (length : Nat) (cs : List Char) : Option (Char × List Char) := do
  let digits ← (cs.take length).mapM hexValue?
  guard (digits.length = length)
  let code := digits.foldl (fun n digit => 16 * n + digit) 0
  guard (code ≤ 0x10ffff ∧ ¬(0xd800 ≤ code ∧ code ≤ 0xdfff))
  return (Char.ofNat code, cs.drop length)

def escape? : List Char → Option (Char × List Char)
  | 'b' :: rest => some ('\x08', rest)
  | 't' :: rest => some ('\t', rest)
  | 'n' :: rest => some ('\n', rest)
  | 'f' :: rest => some ('\x0c', rest)
  | 'r' :: rest => some ('\r', rest)
  | 'e' :: rest => some ('\x1b', rest)
  | '\x22' :: rest => some ('\x22', rest)
  | '\\' :: rest => some ('\\', rest)
  | 'x' :: rest => hexChar? 2 rest
  | 'u' :: rest => hexChar? 4 rest
  | 'U' :: rest => hexChar? 8 rest
  | _ => none

def lineText? (basic : Bool) : Nat → List Char → List Char → Option (String × List Char)
  | 0, _, _ => none
  | _, _, [] => none
  | fuel + 1, read, c :: rest =>
    if c = (if basic then '\x22' else '\x27') then some (String.ofList read.reverse, rest)
    else if basic && c = '\\' then
      match escape? rest with
      | some (c, rest) => lineText? basic fuel (c :: read) rest
      | none => none
    else if isPrintable c then lineText? basic fuel (c :: read) rest
    else none

def skipBlankLines : Nat → List Char → List Char
  | 0, cs => cs
  | fuel + 1, cs =>
    let cs := cs.dropWhile isBlank
    match afterBreak? cs with
    | some rest => skipBlankLines fuel rest
    | none => cs

def joinedLine? (fuel : Nat) (cs : List Char) : Option (List Char) :=
  (afterBreak? (cs.dropWhile isBlank)).map (skipBlankLines fuel)

/-- The rest of a string over several lines. It ends at three quotes that no quote follows, so
that one or two may stand before them. -/
def linesText? (basic : Bool) : Nat → List Char → List Char → Option (String × List Char)
  | 0, _, _ => none
  | _, _, [] => none
  | fuel + 1, read, c :: rest =>
    let quote := if basic then '\x22' else '\x27'
    if c = quote then
      let quotes := 1 + (rest.takeWhile (· = quote)).length
      let rest := rest.drop (quotes - 1)
      if quotes < 3 then linesText? basic fuel (List.replicate quotes quote ++ read) rest
      else if quotes ≤ 5 then
        some (String.ofList (List.replicate (quotes - 3) quote ++ read).reverse, rest)
      else none
    else if basic && c = '\\' then
      match joinedLine? (fuel + 1) rest with
      | some rest => linesText? basic fuel read rest
      | none =>
        match escape? rest with
        | some (c, rest) => linesText? basic fuel (c :: read) rest
        | none => none
    else if isPrintable c || c = '\n' then linesText? basic fuel (c :: read) rest
    else if c = '\r' && rest.head? = some '\n' then linesText? basic fuel (c :: read) rest
    else none

def dropBreak (cs : List Char) : List Char := (afterBreak? cs).getD cs

def simpleText? (fuel : Nat) : List Char → Option (String × List Char)
  | '\x22' :: rest => lineText? true fuel [] rest
  | '\x27' :: rest => lineText? false fuel [] rest
  | _ => none

def text? (fuel : Nat) : List Char → Option (String × List Char)
  | '\x22' :: '\x22' :: '\x22' :: rest => linesText? true fuel [] (dropBreak rest)
  | '\x27' :: '\x27' :: '\x27' :: rest => linesText? false fuel [] (dropBreak rest)
  | cs => simpleText? fuel cs

end PolicyReview.Toml
