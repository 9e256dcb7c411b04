/-!
# Numbers in double precision

The binary numbers with 53 significant bits, as exact data: a finite number is
`± significand · 2 ^ exponent`. Numbers are kept in one form each: either the
exponent is the least one, `-1074`, or the significand has exactly 53 bits.

* `Double.ofRatio`: the number nearest to a ratio, an exact half going to the
  even significand;
* `Double.ofDecimal`: the number nearest to a decimal numeral;
* `Double.whole?`: the integer that a number is equal to, if there is one.
-/

namespace Stencil

/-- A number in double precision. -/
inductive Double
  /-- The result that is no number. -/
  | nan
  /-- Beyond all finite numbers. -/
  | infinite (negative : Bool)
  /-- `significand · 2 ^ exponent`, or its negative. -/
  | finite (negative : Bool) (significand : Nat) (exponent : Int)
  deriving DecidableEq, Inhabited

/-- A power of two. -/
def twoPow (n : Nat) : Nat := Nat.pow 2 n

/-- A power of ten. -/
def tenPow (n : Nat) : Nat := Nat.pow 10 n

namespace Double

/-- The least exponent. -/
def leastExponent : Int := -1074

/-- The greatest exponent. -/
def greatestExponent : Int := 971

/-- Zero, of either sign. -/
def zero (negative : Bool) : Double := .finite negative 0 leastExponent

/-- `num / den` in units of `2 ^ e`: the quotient, what is left of the dividend,
    and the divisor. -/
def scaleDiv (num den : Nat) (e : Int) : Nat × Nat × Nat :=
  let n := num * twoPow (-e).toNat
  let d := den * twoPow e.toNat
  (n / d, n % d, d)

/-- A quotient rounded to the nearest integer, an exact half to the even one. -/
def roundQuotient (quotient remainder divisor : Nat) : Nat :=
  if 2 * remainder < divisor then quotient
  else if divisor < 2 * remainder then quotient + 1
  else quotient + quotient % 2

/-- The exponent at which `num / den` has 53 bits before the point, or the least
    exponent if the ratio is too small for that. -/
def exponentFor (num den : Nat) : Int :=
  -- The logarithms round down, so this is too large by one at most.
  let e : Int := (Nat.log2 num : Int) - Nat.log2 den - 52
  max leastExponent (if (scaleDiv num den e).1 < twoPow 52 then e - 1 else e)

/-- The number nearest to `num / den`, or its negative. -/
def ofRatio (negative : Bool) (num den : Nat) : Double :=
  if num = 0 then zero negative
  else
    let e := exponentFor num den
    let (q, r, d) := scaleDiv num den e
    let m := roundQuotient q r d
    -- Rounding up may have added a bit.
    let (m, e) := if m = twoPow 53 then (twoPow 52, e + 1) else (m, e)
    if greatestExponent < e then .infinite negative else .finite negative m e

/-- The number of decimal digits of `n`. -/
def countDigits (n : Nat) : Nat := (Nat.toDigits 10 n).length

/-- The number nearest to `digits · 10 ^ exponent`, or its negative. Exponents far
    beyond the range of the finite numbers are settled without computing the power. -/
def ofDecimal (negative : Bool) (digits : Nat) (exponent : Int) : Double :=
  if digits = 0 then zero negative
  else
    let top := countDigits digits + exponent
    if 400 < top then .infinite negative
    else if top < -400 then zero negative
    else ofRatio negative (digits * tenPow exponent.toNat) (tenPow (-exponent).toNat)

/-- The sign of a number; the result that is no number has none. -/
def negative : Double → Bool
  | .nan => false
  | .infinite n => n
  | .finite n _ _ => n

/-- The number of the opposite sign. -/
def neg : Double → Double
  | .nan => .nan
  | .infinite n => .infinite (!n)
  | .finite n m e => .finite (!n) m e

/-- A finite number as a fraction: numerator and positive denominator. -/
def fraction? : Double → Option (Int × Nat)
  | .finite n m e =>
    let num : Int := m * twoPow e.toNat
    some (if n then -num else num, twoPow (-e).toNat)
  | _ => none

/-- The number nearest to a fraction; zero is positive. -/
def ofFraction (num : Int) (den : Nat) : Double :=
  ofRatio (decide (num < 0)) num.natAbs den

/-- The nearest number to the sum; what is not finite absorbs the rest. -/
def add (x y : Double) : Double :=
  match x.fraction?, y.fraction? with
  | some (a, b), some (c, d) => ofFraction (a * d + c * b) (b * d)
  | none, _ => x
  | _, none => y

/-- The nearest number to the product with a positive integer. -/
def scale (x : Double) (n : Nat) : Double :=
  match x.fraction? with
  | some (a, b) => ofFraction (a * n) b
  | none => x

/-- The integer that a number is equal to. -/
def whole? (x : Double) : Option Int :=
  match x.fraction? with
  | some (a, b) => if a % b = 0 then some (a / b) else none
  | none => none

/-- Whether a number is zero, of either sign. -/
def isZero : Double → Bool
  | .finite _ m _ => m == 0
  | _ => false

end Double

end Stencil
