/-! Texts in UTF-8. Bytes that encode nothing are read as replacement characters, one for each longest
start of an encoding. -/

namespace PolicyReview.Text

abbrev Bytes := List UInt8

/-- The bytes of a text. -/
def bytes (text : String) : Bytes := text.toByteArray.data.toList

def laterBytes? (first : Nat) : Option (Nat × Nat × Nat) :=
  if 0xc2 ≤ first ∧ first ≤ 0xdf then some (0x80, 0xbf, 1)
  else if first = 0xe0 then some (0xa0, 0xbf, 2)
  else if first = 0xed then some (0x80, 0x9f, 2)
  else if 0xe1 ≤ first ∧ first ≤ 0xef then some (0x80, 0xbf, 2)
  else if first = 0xf0 then some (0x90, 0xbf, 3)
  else if 0xf1 ≤ first ∧ first ≤ 0xf3 then some (0x80, 0xbf, 3)
  else if first = 0xf4 then some (0x80, 0x8f, 3)
  else none

def continueCode : Nat → Nat → Nat → Nat → Bytes → Option Nat × Bytes
  | 0, _, _, code, rest => (some code, rest)
  | _, _, _, _, [] => (none, [])
  | count + 1, low, high, code, byte :: rest =>
    if low ≤ byte.toNat ∧ byte.toNat ≤ high then
      continueCode count 0x80 0xbf (64 * code + byte.toNat % 64) rest
    else (none, byte :: rest)

def replacement : Char := '\ufffd'

def firstChar (byte : UInt8) (rest : Bytes) : Char × Bytes :=
  if byte.toNat < 0x80 then (Char.ofNat byte.toNat, rest)
  else
    match laterBytes? byte.toNat with
    | none => (replacement, rest)
    | some (low, high, count) =>
      match continueCode count low high (byte.toNat % Nat.pow 2 (6 - count)) rest with
      | (some code, rest) => (Char.ofNat code, rest)
      | (none, rest) => (replacement, rest)

def decodeFrom : Nat → Bytes → List Char
  | 0, _ => []
  | _, [] => []
  | fuel + 1, byte :: rest =>
    let (c, rest) := firstChar byte rest
    c :: decodeFrom fuel rest

def decodeBytes (bytes : Bytes) : List Char := decodeFrom bytes.length bytes

/-- The text that bytes are shown as. -/
def shown (bytes : Bytes) : String := String.ofList (decodeBytes bytes)

end PolicyReview.Text
