import PolicyReview.Json

/-! Compact JSON text. Only quotes, backslashes and characters below the space are escaped,
and there is no blank between tokens, so a text has no line break of its own. -/

namespace PolicyReview.Json

def hexDigit (n : Nat) : Char := Nat.digitChar (n % 16)

def escape (c : Char) : List Char :=
  if c = '\x22' then ['\\', '\x22']
  else if c = '\\' then ['\\', '\\']
  else if c = '\x08' then ['\\', 'b']
  else if c = '\x0c' then ['\\', 'f']
  else if c = '\n' then ['\\', 'n']
  else if c = '\r' then ['\\', 'r']
  else if c = '\t' then ['\\', 't']
  else if c.toNat < 32 then ['\\', 'u', '0', '0', hexDigit (c.toNat / 16), hexDigit c.toNat]
  else [c]

def quote (text : String) : List Char :=
  '\x22' :: text.toList.flatMap escape ++ ['\x22']

mutual

def chars : Json → List Char
  | .null => ['n', 'u', 'l', 'l']
  | .bool true => ['t', 'r', 'u', 'e']
  | .bool false => ['f', 'a', 'l', 's', 'e']
  | .number value => value.text
  | .string value => quote value
  | .array items => '[' :: itemChars items ++ [']']
  | .object fields => '{' :: fieldChars fields ++ ['}']

def itemChars : List Json → List Char
  | [] => []
  | [item] => chars item
  | item :: rest => chars item ++ ',' :: itemChars rest

def fieldChars : Fields → List Char
  | [] => []
  | [(name, value)] => quote name ++ ':' :: chars value
  | (name, value) :: rest => quote name ++ ':' :: chars value ++ ',' :: fieldChars rest

end

def render (value : Json) : String := String.ofList value.chars

def quoted (text : String) : String := String.ofList (quote text)

end PolicyReview.Json
