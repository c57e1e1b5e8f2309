import PolicyReview.Toml.Value
import PolicyReview.Toml.Text

/-! Numbers, booleans, dates and times of TOML documents. Between two digits an underscore may
stand; a decimal number has no leading zeros; dates and times are those of the calendar. -/

namespace PolicyReview.Toml

/-- Digits in a base, with the underscores between them dropped. -/
def digits? (isDigit : Char → Bool) (cs : List Char) : Option (List Char) :=
  let groups := cs.splitOn '_'
  if groups.all fun group => !group.isEmpty && group.all isDigit then some groups.flatten else none

def natOf (base : Nat) (digits : List Char) : Nat :=
  digits.foldl (fun n c => base * n + (hexValue? c).getD 0) 0

def splitSign : List Char → Bool × List Char
  | '-' :: rest => (true, rest)
  | '+' :: rest => (false, rest)
  | cs => (false, cs)

def wholeDigits? (cs : List Char) : Option (List Char) := do
  let digits ← digits? Char.isDigit cs
  guard (digits.length = 1 || digits.head? ≠ some '0')
  return digits

def integer? (cs : List Char) : Option Int :=
  match cs with
  | '0' :: 'x' :: rest => (digits? (fun c => (hexValue? c).isSome) rest).map fun d => natOf 16 d
  | '0' :: 'o' :: rest => (digits? (fun c => '0' ≤ c && c ≤ '7') rest).map fun d => natOf 8 d
  | '0' :: 'b' :: rest => (digits? (fun c => c = '0' || c = '1') rest).map fun d => natOf 2 d
  | cs =>
    let (negative, unsigned) := splitSign cs
    (wholeDigits? unsigned).map fun d => if negative then -(natOf 10 d : Int) else natOf 10 d

def isExponent (cs : List Char) : Bool := (digits? Char.isDigit (splitSign cs).2).isSome

/-- Whether a text is a number with a fraction, an exponent or both, an infinity or no number. -/
def isFloat (cs : List Char) : Bool :=
  let (_, unsigned) := splitSign cs
  unsigned = ['i', 'n', 'f'] || unsigned = ['n', 'a', 'n'] ||
    let (mantissa, exponent) := unsigned.span fun c => c ≠ 'e' && c ≠ 'E'
    let (whole, fraction) := mantissa.span (· ≠ '.')
    (wholeDigits? whole).isSome &&
      (fraction.isEmpty || (digits? Char.isDigit (fraction.drop 1)).isSome) &&
      (exponent.isEmpty || isExponent (exponent.drop 1)) &&
      !(fraction.isEmpty && exponent.isEmpty)

/-! Dates and times. -/

def fixed? (length low high : Nat) (cs : List Char) : Option Nat := do
  guard (cs.length = length && cs.all Char.isDigit)
  let n := natOf 10 cs
  guard (low ≤ n ∧ n ≤ high)
  return n

def isLeap (year : Nat) : Bool := year % 4 = 0 && (year % 100 ≠ 0 || year % 400 = 0)

def daysIn (year month : Nat) : Nat :=
  if month = 2 then (if isLeap year then 29 else 28)
  else if month ∈ [4, 6, 9, 11] then 30 else 31

def isDate (cs : List Char) : Bool :=
  match cs.splitOn '-' with
  | [y, m, d] =>
    match fixed? 4 0 9999 y, fixed? 2 1 12 m, fixed? 2 1 31 d with
    | some year, some month, some day => day ≤ daysIn year month
    | _, _, _ => false
  | _ => false

def isSecond (cs : List Char) : Bool :=
  let (whole, fraction) := cs.span (· ≠ '.')
  (fixed? 2 0 60 whole).isSome &&
    (fraction.isEmpty || (1 < fraction.length && (fraction.drop 1).all Char.isDigit))

def isTime (cs : List Char) : Bool :=
  match cs.splitOn ':' with
  | [h, m] => (fixed? 2 0 23 h).isSome && (fixed? 2 0 59 m).isSome
  | [h, m, s] => (fixed? 2 0 23 h).isSome && (fixed? 2 0 59 m).isSome && isSecond s
  | _ => false

def isOffset (cs : List Char) : Bool :=
  match cs with
  | ['Z'] => true
  | ['z'] => true
  | sign :: rest =>
    (sign = '+' || sign = '-') &&
      match rest.splitOn ':' with
      | [h, m] => (fixed? 2 0 23 h).isSome && (fixed? 2 0 59 m).isSome
      | _ => false
  | [] => false

def isOffsetTime (cs : List Char) : Bool :=
  let (time, offset) := cs.span fun c => !(c = 'Z' || c = 'z' || c = '+' || c = '-')
  isTime time && (offset.isEmpty || isOffset offset)

/-- Whether a text is a date, a time, or both with a mark between them. -/
def isMoment (cs : List Char) : Bool :=
  let (date, rest) := (cs.take 10, cs.drop 10)
  isTime cs || (isDate date && match rest with
    | [] => true
    | mark :: time => (mark = 'T' || mark = 't' || mark = ' ') && isOffsetTime time)

def scalar? (cs : List Char) : Option Value :=
  if cs = "true".toList then some (.boolean true)
  else if cs = "false".toList then some (.boolean false)
  else
    match integer? cs with
    | some n => some (.integer n)
    | none => if isFloat cs then some .float else if isMoment cs then some .moment else none

end PolicyReview.Toml
