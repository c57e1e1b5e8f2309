/-! Finite binary floating point numbers of 64 bits, read and written exactly.
A decimal literal becomes the nearest number, ties going to the even significand,
and a number is written with the fewest digits that read back as it. All of the
arithmetic is on natural numbers, so nothing depends on a machine's rounding. -/

namespace PolicyReview

/-- A number held as its bit pattern: sign, eleven exponent bits, fifty-two fraction bits. -/
structure Binary64 where
  bits : UInt64
  deriving DecidableEq, Repr, Inhabited

namespace Binary64

def isNegative (x : Binary64) : Bool := Nat.pow 2 63 ≤ x.bits.toNat

def biasedExponent (x : Binary64) : Nat := x.bits.toNat / Nat.pow 2 52 % Nat.pow 2 11

def fraction (x : Binary64) : Nat := x.bits.toNat % Nat.pow 2 52

def significand (x : Binary64) : Nat :=
  if x.biasedExponent = 0 then x.fraction else Nat.pow 2 52 + x.fraction

def scale (x : Binary64) : Int := (max x.biasedExponent 1 : Nat) - 1075

def isZero (x : Binary64) : Bool := x.significand == 0

def ratio (x : Binary64) : Nat × Nat :=
  if 0 ≤ x.scale then (x.significand * Nat.pow 2 x.scale.toNat, 1)
  else (x.significand, Nat.pow 2 (-x.scale).toNat)

def roundQuotient (num den : Nat) : Nat :=
  let whole := num / den
  let twice := 2 * (num % den)
  if den < twice ∨ (twice = den ∧ whole % 2 = 1) then whole + 1 else whole

def assemble (negative : Bool) (biased fraction : Nat) : Binary64 :=
  ⟨UInt64.ofNat ((if negative then Nat.pow 2 63 else 0) + biased * Nat.pow 2 52 + fraction)⟩

def zero (negative : Bool) : Binary64 := assemble negative 0 0

def significandAt (num den : Nat) (scale : Int) : Nat :=
  if 0 ≤ scale then roundQuotient num (den * Nat.pow 2 scale.toNat)
  else roundQuotient (num * Nat.pow 2 (-scale).toNat) den

/-- The nearest number to a quotient, or nothing when it is past the largest finite number. -/
def ofRatio? (negative : Bool) (num den : Nat) : Option Binary64 :=
  if num = 0 then some (zero negative)
  else
    let coarse : Int := max ((num.log2 : Int) - den.log2 - 53) (-1074)
    let wide := if 0 ≤ coarse then num / (den * Nat.pow 2 coarse.toNat)
      else num * Nat.pow 2 (-coarse).toNat / den
    let chosen := if Nat.pow 2 53 ≤ wide then coarse + 1 else coarse
    let rounded := significandAt num den chosen
    let (significand, scale) :=
      if rounded = Nat.pow 2 53 then (Nat.pow 2 52, chosen + 1) else (rounded, chosen)
    if significand < Nat.pow 2 52 then some (assemble negative 0 significand)
    else
      let biased := (scale + 1075).toNat
      if 2047 ≤ biased then none
      else some (assemble negative biased (significand - Nat.pow 2 52))

def digitCount (n : Nat) : Nat := (Nat.toDigits 10 n).length

/-- The nearest number to `digits * 10 ^ exponent`. Magnitudes far outside the range are
settled by their digit count alone, so that no huge power is formed. -/
def ofDecimal? (negative : Bool) (digits : Nat) (exponent : Int) : Option Binary64 :=
  if digits = 0 then some (zero negative)
  else
    let magnitude := exponent + digitCount digits
    if 400 < magnitude then none
    else if magnitude < -400 then some (zero negative)
    else if 0 ≤ exponent then ofRatio? negative (digits * Nat.pow 10 exponent.toNat) 1
    else ofRatio? negative digits (Nat.pow 10 (-exponent).toNat)

def ofInt (n : Int) : Binary64 :=
  (ofRatio? (n < 0) n.natAbs 1).getD (zero false)

def divide? (x y : Binary64) : Option Binary64 :=
  let (xn, xd) := x.ratio
  let (yn, yd) := y.ratio
  if yn = 0 then none else ofRatio? (x.isNegative != y.isNegative) (xn * yd) (xd * yn)

/-! The interval of reals that round to a number, in quarters of its last place. -/

def lowQuarters (x : Binary64) : Nat :=
  4 * x.significand - (if x.fraction = 0 ∧ 1 < x.biasedExponent then 1 else 2)

def highQuarters (x : Binary64) : Nat := 4 * x.significand + 2

def compareQuarters (x : Binary64) (digits : Nat) (exponent : Int) (quarters : Nat) :
    Ordering :=
  let scale := x.scale - 2
  let left := digits * (if 0 ≤ exponent then Nat.pow 10 exponent.toNat else 1) *
    (if 0 ≤ scale then 1 else Nat.pow 2 (-scale).toNat)
  let right := quarters * (if 0 ≤ scale then Nat.pow 2 scale.toNat else 1) *
    (if 0 ≤ exponent then 1 else Nat.pow 10 (-exponent).toNat)
  compare left right

def readsBack (x : Binary64) (digits : Nat) (exponent : Int) : Bool :=
  let even := x.significand % 2 == 0
  let low := compareQuarters x digits exponent x.lowQuarters
  let high := compareQuarters x digits exponent x.highQuarters
  (low == .gt || (even && low == .eq)) && (high == .lt || (even && high == .eq))

def decimalMagnitude (x : Binary64) : Int :=
  let (num, den) := x.ratio
  if den ≤ num then digitCount (num / den)
  else
    let places := digitCount (den / num)
    if num * Nat.pow 10 (places - 1) = den then 2 - (places : Int) else 1 - (places : Int)

def gridNeighbours (x : Binary64) (exponent : Int) : List Nat :=
  let (num, den) := x.ratio
  let scaledNum := if 0 ≤ exponent then num else num * Nat.pow 10 (-exponent).toNat
  let scaledDen := if 0 ≤ exponent then den * Nat.pow 10 exponent.toNat else den
  let below := scaledNum / scaledDen
  let twice := 2 * (scaledNum % scaledDen)
  if twice < scaledDen ∨ (twice = scaledDen ∧ below % 2 = 0) then [below, below + 1]
  else [below + 1, below]

def shortestFrom (x : Binary64) (magnitude : Int) : Nat → Nat → Nat × Int
  | 0, count => (((gridNeighbours x (magnitude - count)).headD 0), magnitude - count)
  | fuel + 1, count =>
    let exponent := magnitude - count
    match (gridNeighbours x exponent).find? (fun digits => x.readsBack digits exponent) with
    | some digits => (digits, exponent)
    | none => shortestFrom x magnitude fuel (count + 1)

def dropZeros : Nat → Nat → Int → Nat × Int
  | 0, digits, exponent => (digits, exponent)
  | fuel + 1, digits, exponent =>
    if digits ≠ 0 ∧ digits % 10 = 0 then dropZeros fuel (digits / 10) (exponent + 1)
    else (digits, exponent)

def shortest (x : Binary64) : Nat × Int :=
  let (digits, exponent) := shortestFrom x x.decimalMagnitude 16 1
  dropZeros 18 digits exponent

/-- Digits are positional from `0.00001` up to sixteen whole digits, always with a point;
outside of that range an exponent with its sign follows the digits. -/
def text (x : Binary64) : List Char :=
  let sign := if x.isNegative then ['-'] else []
  if x.isZero then sign ++ ['0', '.', '0']
  else
    let (number, exponent) := x.shortest
    let digits := Nat.toDigits 10 number
    let leading : Int := exponent + digits.length - 1
    if -5 ≤ leading ∧ leading < 16 then
      if 0 ≤ exponent then
        sign ++ digits ++ List.replicate exponent.toNat '0' ++ ['.', '0']
      else if 0 ≤ leading then
        let whole := leading.toNat + 1
        sign ++ digits.take whole ++ ['.'] ++ digits.drop whole
      else
        sign ++ ['0', '.'] ++ List.replicate (-leading - 1).toNat '0' ++ digits
    else
      let mantissa := match digits with
        | first :: rest@(_ :: _) => first :: '.' :: rest
        | short => short
      let power := (if leading < 0 then '-' else '+') :: Nat.toDigits 10 leading.natAbs
      sign ++ mantissa ++ 'e' :: power

end Binary64

end PolicyReview
