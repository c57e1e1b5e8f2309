import PolicyReview.Json

/-! Values of plain scalars. A plain scalar is a null, a boolean or a number where it is spelt
like one, and otherwise a text. Integers may be signed, and written in hexadecimal, octal or
binary digits; a decimal number of several digits that starts with a zero is a text. -/

namespace PolicyReview.Yaml

def isNullText (text : String) : Bool :=
  text = "null" || text = "Null" || text = "NULL" || text = "~"

def boolOf? (text : String) : Option Bool :=
  match text with
  | "true" | "True" | "TRUE" => some true
  | "false" | "False" | "FALSE" => some false
  | _ => none

/-! Integers. -/

def digitOf? (base : Nat) (c : Char) : Option Nat :=
  let value? :=
    if c.isDigit then some (c.toNat - 48)
    else if 'a' ≤ c && c ≤ 'f' then some (c.toNat - 87)
    else if 'A' ≤ c && c ≤ 'F' then some (c.toNat - 55)
    else none
  value?.filter (· < base)

def natBelow? (base bound : Nat) (digits : List Char) : Option Nat := do
  guard !digits.isEmpty
  let values ← digits.mapM (digitOf? base)
  let n := values.foldl (fun n digit => base * n + digit) 0
  guard (n < bound)
  return n

def basedDigits : List Char → Nat × List Char
  | '0' :: 'x' :: digits => (16, digits)
  | '0' :: 'o' :: digits => (8, digits)
  | '0' :: 'b' :: digits => (2, digits)
  | digits => (10, digits)

def isZeroPadded (digits : List Char) : Bool :=
  2 ≤ digits.length && digits.head? = some '0' && digits.all Char.isDigit

def magnitude? (bound : Nat) (digits : List Char) : Option Nat :=
  if isZeroPadded digits then none
  else
    let (base, digits) := basedDigits digits
    natBelow? base bound digits

def splitSign : List Char → Bool × List Char
  | '-' :: rest => (true, rest)
  | '+' :: rest => (false, rest)
  | cs => (false, cs)

inductive Whole where
  | integer (value : Int)
  | tooLong
  | other

def wholeOf (cs : List Char) : Whole :=
  let (negative, digits) := splitSign cs
  match magnitude? (if negative then Nat.pow 2 127 + 1 else Nat.pow 2 128) digits with
  | none => .other
  | some n =>
    if negative then
      if n ≤ Nat.pow 2 63 then .integer (-n) else .tooLong
    else if n < Nat.pow 2 64 then .integer n else .tooLong

/-! Decimal numbers. -/

def exponentOf? : List Char → Option Int
  | [] => some 0
  | e :: rest =>
    if e = 'e' || e = 'E' then
      let (negative, digits) := splitSign rest
      if digits.isEmpty || !digits.all Char.isDigit then none
      else
        let n : Int := digits.foldl (fun n c => 10 * n + (c.toNat - 48)) 0
        some (if negative then -n else n)
    else none

def decimalOf? (cs : List Char) : Option Binary64 := do
  let (negative, cs) := match cs with
    | '-' :: rest => (true, rest)
    | cs => (false, cs)
  let (whole, rest) := cs.span Char.isDigit
  let (places, rest) := match rest with
    | '.' :: rest => rest.span Char.isDigit
    | rest => ([], rest)
  guard !(whole.isEmpty && places.isEmpty)
  let exponent ← exponentOf? rest
  let digits := (whole ++ places).foldl (fun n c => 10 * n + (c.toNat - 48)) 0
  Binary64.ofDecimal? negative digits (exponent - places.length)

def isInfinity (cs : List Char) : Bool :=
  let (_, rest) := splitSign cs
  [".inf", ".Inf", ".INF"].any (·.toList = rest)

def isNotNumber (cs : List Char) : Bool := [".nan", ".NaN", ".NAN"].any (·.toList = cs)

/-- A number that is no integer; the infinities and what is no number become null. -/
def floatOf? (cs : List Char) : Option Json :=
  if isInfinity cs || isNotNumber cs then some .null
  else
    let unsigned? := match cs with
      | '+' :: rest => if rest.head?.any (fun c => c = '+' || c = '-') then none else some rest
      | cs => some cs
    (unsigned?.bind decimalOf?).map fun x => .number (.float x)

/-! Values. -/

/-- The value of a plain scalar; nothing where it is an integer that is too long. -/
def plainValue? (text : String) : Option Json :=
  if text = "" || isNullText text then some .null
  else
    match boolOf? text with
    | some value => some (.bool value)
    | none =>
      let cs := text.toList
      match wholeOf cs with
      | .integer n => some (Json.int n)
      | .tooLong => none
      | .other =>
        if isZeroPadded (splitSign cs).2 then some (.string text)
        else some ((floatOf? cs).getD (.string text))

/-- The value of a scalar with a tag; the tags of the core schema check what they name, and
any other leaves a text. -/
def taggedValue? (tag text : String) : Option Json :=
  match tag with
  | "tag:yaml.org,2002:bool" => (boolOf? text).map .bool
  | "tag:yaml.org,2002:int" =>
    match wholeOf text.toList with
    | .integer n => some (Json.int n)
    | _ => none
  | "tag:yaml.org,2002:float" => floatOf? text.toList
  | "tag:yaml.org,2002:null" => if isNullText text then some .null else none
  | _ => some (.string text)

end PolicyReview.Yaml
