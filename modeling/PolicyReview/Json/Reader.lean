import PolicyReview.Json

/-! A reader of JSON text. Blanks are the space, the tab and the two line ends; a number keeps
its kind as `Number.ofLiteral?` says; nothing may follow the value. Arrays and objects nest
at most 127 deep. -/

namespace PolicyReview.Json

def isBlank (c : Char) : Bool := c = ' ' || c = '\t' || c = '\n' || c = '\r'

def skipBlanks (cs : List Char) : List Char := cs.dropWhile isBlank

def digitValue (c : Char) : Nat := c.toNat - 48

def natOfDigits (digits : List Char) : Nat :=
  digits.foldl (fun n c => 10 * n + digitValue c) 0

def takeDigits (cs : List Char) : List Char × List Char := cs.span Char.isDigit

def hexValue? (c : Char) : Option Nat :=
  if c.isDigit then some (c.toNat - 48)
  else if 'a' ≤ c ∧ c ≤ 'f' then some (c.toNat - 87)
  else if 'A' ≤ c ∧ c ≤ 'F' then some (c.toNat - 55)
  else none

def hexQuad? : List Char → Option (Nat × List Char)
  | a :: b :: c :: d :: rest => do
    let a ← hexValue? a
    let b ← hexValue? b
    let c ← hexValue? c
    let d ← hexValue? d
    some (((a * 16 + b) * 16 + c) * 16 + d, rest)
  | _ => none

/-- The character after `\u`: one unit, or a pair of surrogates. A lone surrogate is refused. -/
def readUnicode? (cs : List Char) : Option (Char × List Char) := do
  let (unit, rest) ← hexQuad? cs
  if 0xD800 ≤ unit ∧ unit < 0xDC00 then
    match rest with
    | '\\' :: 'u' :: rest => do
      let (low, rest) ← hexQuad? rest
      if 0xDC00 ≤ low ∧ low < 0xE000 then
        some (Char.ofNat (0x10000 + (unit - 0xD800) * 0x400 + (low - 0xDC00)), rest)
      else none
    | _ => none
  else if 0xDC00 ≤ unit ∧ unit < 0xE000 then none
  else some (Char.ofNat unit, rest)

/-- The rest of a string after its opening quote; `read` holds what came so far, reversed. -/
def readString? (fuel : Nat) (read : List Char) (cs : List Char) :
    Option (String × List Char) :=
  match fuel with
  | 0 => none
  | fuel + 1 =>
    match cs with
    | [] => none
    | '\x22' :: rest => some (String.ofList read.reverse, rest)
    | '\\' :: c :: rest =>
      match c with
      | '\x22' => readString? fuel ('\x22' :: read) rest
      | '\\' => readString? fuel ('\\' :: read) rest
      | '/' => readString? fuel ('/' :: read) rest
      | 'b' => readString? fuel ('\x08' :: read) rest
      | 'f' => readString? fuel ('\x0c' :: read) rest
      | 'n' => readString? fuel ('\n' :: read) rest
      | 'r' => readString? fuel ('\r' :: read) rest
      | 't' => readString? fuel ('\t' :: read) rest
      | 'u' =>
        match readUnicode? rest with
        | some (c, rest) => readString? fuel (c :: read) rest
        | none => none
      | _ => none
    | c :: rest => if c.toNat < 32 ∨ c = '\\' then none else readString? fuel (c :: read) rest

def readWhole? (cs : List Char) : Option (List Char × List Char) :=
  match cs with
  | '0' :: rest => if (takeDigits rest).1 = [] then some (['0'], rest) else none
  | _ => let (digits, rest) := takeDigits cs
         if digits = [] then none else some (digits, rest)

def readFraction? (cs : List Char) : Option (Option (List Char) × List Char) :=
  match cs with
  | '.' :: rest =>
    let (digits, rest) := takeDigits rest
    if digits = [] then none else some (some digits, rest)
  | _ => some (none, cs)

def readExponent? (cs : List Char) : Option (Option Int × List Char) :=
  let signed (negative : Bool) (cs : List Char) : Option (Option Int × List Char) :=
    let (digits, rest) := takeDigits cs
    if digits = [] then none
    else
      let value : Int := natOfDigits digits
      some (some (if negative then -value else value), rest)
  let marked (cs : List Char) : Option (Option Int × List Char) :=
    match cs with
    | '+' :: rest => signed false rest
    | '-' :: rest => signed true rest
    | _ => signed false cs
  match cs with
  | 'e' :: rest => marked rest
  | 'E' :: rest => marked rest
  | _ => some (none, cs)

def readNumber? (negative : Bool) (cs : List Char) : Option (Json × List Char) := do
  let (whole, rest) ← readWhole? cs
  let (fraction, rest) ← readFraction? rest
  let (exponent, rest) ← readExponent? rest
  let places := fraction.getD []
  let number ← Number.ofLiteral? negative (fraction.isNone && exponent.isNone)
    (natOfDigits (whole ++ places)) (exponent.getD 0 - places.length)
  some (.number number, rest)

def expect? (word : List Char) (value : Json) (cs : List Char) : Option (Json × List Char) :=
  if word.isPrefixOf cs then some (value, cs.drop word.length) else none

mutual

def readValue? (fuel depth : Nat) (cs : List Char) : Option (Json × List Char) :=
  match fuel with
  | 0 => none
  | fuel + 1 =>
    match skipBlanks cs with
    | 'n' :: rest => expect? ['u', 'l', 'l'] .null rest
    | 't' :: rest => expect? ['r', 'u', 'e'] (.bool true) rest
    | 'f' :: rest => expect? ['a', 'l', 's', 'e'] (.bool false) rest
    | '\x22' :: rest =>
      match readString? (rest.length + 1) [] rest with
      | some (text, rest) => some (.string text, rest)
      | none => none
    | '-' :: rest => readNumber? true rest
    | '[' :: rest =>
      match depth with
      | 0 => none
      | depth + 1 =>
        match skipBlanks rest with
        | ']' :: rest => some (.array [], rest)
        | rest => readItems? fuel depth [] rest
    | '{' :: rest =>
      match depth with
      | 0 => none
      | depth + 1 =>
        match skipBlanks rest with
        | '}' :: rest => some (.object [], rest)
        | rest => readMembers? fuel depth [] rest
    | rest => readNumber? false rest

def readItems? (fuel depth : Nat) (read : List Json) (cs : List Char) :
    Option (Json × List Char) :=
  match fuel with
  | 0 => none
  | fuel + 1 =>
    match readValue? fuel depth cs with
    | none => none
    | some (item, rest) =>
      match skipBlanks rest with
      | ',' :: rest => readItems? fuel depth (item :: read) rest
      | ']' :: rest => some (.array (item :: read).reverse, rest)
      | _ => none

def readMembers? (fuel depth : Nat) (read : Fields) (cs : List Char) :
    Option (Json × List Char) :=
  match fuel with
  | 0 => none
  | fuel + 1 =>
    match skipBlanks cs with
    | '\x22' :: rest =>
      match readString? (rest.length + 1) [] rest with
      | none => none
      | some (name, rest) =>
        match skipBlanks rest with
        | ':' :: rest =>
          match readValue? fuel depth rest with
          | none => none
          | some (value, rest) =>
            match skipBlanks rest with
            | ',' :: rest => readMembers? fuel depth (insertField name value read) rest
            | '}' :: rest => some (.object (insertField name value read), rest)
            | _ => none
        | _ => none
    | _ => none

end

def maxDepth : Nat := 127

/-- Reads a text that holds one value and nothing else but blanks. -/
def read? (text : String) : Option Json :=
  let cs := text.toList
  match readValue? (2 * cs.length + 2) maxDepth cs with
  | some (value, rest) => if (skipBlanks rest).isEmpty then some value else none
  | none => none

end PolicyReview.Json
