import PolicyReview.Binary64

/-! Numbers of JSON documents. A literal without fraction and exponent that fits 64 bits
stays an integer and every other literal is a binary number, so `1` and `1.0` are two
values; their order and their divisibility are those of the reals they stand for. -/

namespace PolicyReview

inductive Number where
  | int (value : Int)
  | float (value : Binary64)
  deriving DecidableEq, Repr, Inhabited

namespace Number

def fitsWord (n : Int) : Bool := -(Nat.pow 2 63 : Int) ≤ n && n < (Nat.pow 2 64 : Int)

/-- Equality within a kind; the two zeros of binary numbers are equal. -/
def same : Number → Number → Bool
  | .int m, .int n => m == n
  | .float x, .float y => x == y || (x.isZero && y.isZero)
  | _, _ => false

def ratio : Number → Int × Nat
  | .int n => (n, 1)
  | .float x =>
    let (num, den) := x.ratio
    (if x.isNegative then -(num : Int) else num, den)

/-- Order of the real values, across kinds. -/
def order (a b : Number) : Ordering :=
  let (an, ad) := a.ratio
  let (bn, bd) := b.ratio
  compare (an * bd) (bn * ad)

def isWhole (a : Number) : Bool :=
  let (num, den) := a.ratio
  num % den == 0

def isInt : Number → Bool
  | .int _ => true
  | .float _ => false

def toBinary64 : Number → Binary64
  | .int n => Binary64.ofInt n
  | .float x => x

def intText (n : Int) : List Char :=
  (if n < 0 then ['-'] else []) ++ Nat.toDigits 10 n.natAbs

def text : Number → List Char
  | .int n => intText n
  | .float x => x.text

def ofLiteral? (negative plain : Bool) (digits : Nat) (exponent : Int) : Option Number :=
  let whole : Int := if negative then -(digits : Int) else digits
  if plain && fitsWord whole && !(negative && digits == 0) then some (.int whole)
  else (Binary64.ofDecimal? negative digits exponent).map .float

end Number

end PolicyReview
