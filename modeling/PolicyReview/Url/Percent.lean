import PolicyReview.Text.Utf8

/-! Percent encoding: a byte is written as a percent sign and two hexadecimal digits. What is
written is in upper case; in what is read either case stands, and a percent sign without two
digits stands for itself. -/

namespace PolicyReview.Url.Percent

def upperDigit (n : Nat) : Char := (Nat.digitChar (n % 16)).toUpper

def encodeByte (byte : UInt8) : List Char :=
  ['%', upperDigit (byte.toNat / 16), upperDigit byte.toNat]

/-- Encodes every character beyond ASCII, and those of ASCII that a condition asks for. -/
def encode (encoded : Char → Bool) (cs : List Char) : List Char :=
  cs.flatMap fun c =>
    if 0x80 ≤ c.toNat || encoded c then (String.utf8EncodeChar c).flatMap encodeByte else [c]

def digit? (c : Char) : Option Nat :=
  if c.isDigit then some (c.toNat - 48)
  else if 'a' ≤ c && c ≤ 'f' then some (c.toNat - 87)
  else if 'A' ≤ c && c ≤ 'F' then some (c.toNat - 55)
  else none

def byte? (a b : Char) : Option UInt8 := do
  let high ← digit? a
  let low ← digit? b
  return UInt8.ofNat (16 * high + low)

/-- The bytes of a text; `skipped` counts characters that belong to a byte already read. -/
def bytesFrom : Nat → List Char → Text.Bytes
  | _, [] => []
  | skipped + 1, _ :: rest => bytesFrom skipped rest
  | 0, c :: rest =>
    match c, rest with
    | '%', a :: b :: _ =>
      match byte? a b with
      | some byte => byte :: bytesFrom 2 rest
      | none => String.utf8EncodeChar c ++ bytesFrom 0 rest
    | _, _ => String.utf8EncodeChar c ++ bytesFrom 0 rest

def decode (cs : List Char) : Text.Bytes := bytesFrom 0 cs

def isControl (c : Char) : Bool := c.toNat < 0x20 || c = '\x7f'

def inPath (c : Char) : Bool :=
  isControl c || [' ', '\x22', '<', '>', '\x60', '#', '?', '\x7b', '\x7d'].contains c

end PolicyReview.Url.Percent
