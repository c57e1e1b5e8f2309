import PolicyReview.Url.Percent

/-! Hosts of URLs. In the schemes of the web a host is a domain name, in lower case and without
percent signs, or an address; in any other scheme it is a text of its own, or an address of
version 6 in brackets. -/

namespace PolicyReview.Url

inductive Fault where
  | noScheme
  | emptyHost
  | badDomain
  | badPort
  | badAddress4
  | badAddress6
  | badHostCharacter
  deriving DecidableEq, Repr

def Fault.message : Fault → String
  | noScheme => "relative URL without a base"
  | emptyHost => "empty host"
  | badDomain => "invalid international domain name"
  | badPort => "invalid port number"
  | badAddress4 => "invalid IPv4 address"
  | badAddress6 => "invalid IPv6 address"
  | badHostCharacter => "invalid domain character"

inductive Host where
  | name (text : String)
  | address4
  | address6 (pieces : List Nat)
  deriving DecidableEq, Repr

/-! Addresses of version 6: eight pieces of 16 bits in hexadecimal digits, a run of zeros left
out at most once, and the last two written as an address of version 4 if one likes. -/

namespace Address6

def piece? (cs : List Char) : Option (List Nat) := do
  guard (1 ≤ cs.length ∧ cs.length ≤ 4)
  let digits ← cs.mapM Percent.digit?
  return [digits.foldl (fun n digit => 16 * n + digit) 0]

def octet? (cs : List Char) : Option Nat := do
  guard (cs.all Char.isDigit && (cs = ['0'] || (cs.head?.any (· ≠ '0') && cs.length ≤ 3)))
  let n := cs.foldl (fun n c => 10 * n + (c.toNat - 48)) 0
  guard (n < 256)
  return n

def octets? (cs : List Char) : Option (List Nat) := do
  match ← (cs.splitOn '.').mapM octet? with
  | [a, b, c, d] => return [256 * a + b, 256 * c + d]
  | _ => none

/-- Pieces between colons; only the last text may be four octets. -/
def pieces? : List (List Char) → Option (List Nat)
  | [] => some []
  | [last] => if last.contains '.' then octets? last else piece? last
  | cs :: rest => do
    let first ← piece? cs
    let later ← pieces? rest
    return first ++ later

def side? (cs : List Char) : Option (List Nat) :=
  if cs.isEmpty then some [] else pieces? (cs.splitOn ':')

def cut? : List Char → Option (List Char × List Char)
  | [] => none
  | ':' :: ':' :: rest => some ([], rest)
  | c :: rest => (cut? rest).map fun (left, right) => (c :: left, right)

def read? (cs : List Char) : Option (List Nat) :=
  match cut? cs with
  | none => do
    let pieces ← pieces? (cs.splitOn ':')
    guard (pieces.length = 8)
    return pieces
  | some (left, right) => do
    guard (!left.contains '.')
    let left ← side? left
    let right ← side? right
    let known := left.length + right.length
    guard (known ≤ 7)
    return left ++ List.replicate (8 - known) 0 ++ right

def isZeroRun (pieces : List Nat) (start length : Nat) : Bool :=
  ((pieces.drop start).take length).length = length && ((pieces.drop start).take length).all (· = 0)

/-- The first of the longest runs of at least two zeros. -/
def zeroRun? (pieces : List Nat) : Option (Nat × Nat) :=
  [8, 7, 6, 5, 4, 3, 2].findSome? fun length =>
    ((List.range 7).find? (isZeroRun pieces · length)).map (·, length)

def joined (pieces : List Nat) : List Char :=
  List.intercalate [':'] (pieces.map (Nat.toDigits 16))

/-- The shortest text of an address. -/
def text (pieces : List Nat) : List Char :=
  match zeroRun? pieces with
  | none => joined pieces
  | some (start, length) =>
    joined (pieces.take start) ++ [':', ':'] ++ joined (pieces.drop (start + length))

end Address6

/-! Addresses of version 4: up to four numbers between points. -/

namespace Address4

def basedDigits : List Char → Nat × List Char
  | '0' :: 'x' :: digits => (16, digits)
  | '0' :: 'X' :: digits => (16, digits)
  | '0' :: digit :: digits => (8, digit :: digits)
  | digits => (10, digits)

def number? (cs : List Char) : Option Nat := do
  guard !cs.isEmpty
  let (base, digits) := basedDigits cs
  let values ← digits.mapM Percent.digit?
  guard (values.all (· < base))
  return values.foldl (fun n digit => base * n + digit) 0

def dropEmptyLast (parts : List (List Char)) : List (List Char) :=
  if parts.getLast? = some [] then parts.dropLast else parts

/-- Whether a domain has to be an address, by its last part. -/
def endsInNumber (domain : List Char) : Bool :=
  match (dropEmptyLast (domain.splitOn '.')).getLast? with
  | none => false
  | some last => (!last.isEmpty && last.all Char.isDigit) || (number? last).isSome

def isValid (domain : List Char) : Bool :=
  let parts := dropEmptyLast (domain.splitOn '.')
  match parts.mapM number? with
  | none => false
  | some numbers =>
    let leading := numbers.dropLast
    parts.length ≤ 4 && leading.all (· < 256) &&
      numbers.getLast?.any (· < Nat.pow 256 (4 - leading.length))

end Address4

/-! Hosts. -/

def isForbidden (c : Char) : Bool :=
  ['\x00', '\t', '\n', '\r', ' ', '#', '/', ':', '<', '>', '?', '@', '[', '\\', ']', '^', '|'].contains c

def isForbiddenInDomain (c : Char) : Bool := isForbidden c || Percent.isControl c || c = '%'

def bracketed? (cs : List Char) : Except Fault Host :=
  match cs.getLast?, Address6.read? (cs.drop 1).dropLast with
  | some ']', some pieces => if 2 ≤ cs.length then .ok (.address6 pieces) else .error .badAddress6
  | _, _ => .error .badAddress6

namespace Host

def ofOpaque (cs : List Char) : Except Fault Host :=
  if cs.head? = some '[' then bracketed? cs
  else if cs.any isForbidden then .error .badHostCharacter
  else .ok (.name (String.ofList (Percent.encode Percent.isControl cs)))

def ofDomain (cs : List Char) : Except Fault Host :=
  if cs.head? = some '[' then bracketed? cs
  else
    let domain := (Text.decodeBytes (Percent.decode cs)).map Char.toLower
    if domain.any (fun c => isForbiddenInDomain c || c = Text.replacement) then .error .badDomain
    else if domain.isEmpty then .error .emptyHost
    else if Address4.endsInNumber domain then
      if Address4.isValid domain then .ok .address4 else .error .badAddress4
    else .ok (.name (String.ofList domain))

def text? : Host → Option String
  | .name "" => none
  | .name text => some text
  | .address4 => none
  | .address6 pieces => some (String.ofList ('[' :: Address6.text pieces ++ [']']))

end Host

end PolicyReview.Url
