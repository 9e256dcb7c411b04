import Stencil.Number.Double

/-!
# The shortest decimal numeral of a number

The text of a number in double precision is the decimal numeral with the fewest
digits that is read back as the same number; of those with equally many digits,
the nearest one, and of two equally near ones the even one.

The numerals with `n` digits form a grid. If any point of the grid is read back
as the number, then so is one of the number's two neighbours on it, so it is
enough to test these two, on the grid of one digit, of two digits, and so on. On
the grid of seventeen digits one of them always passes.

* `Double.shortest`: the digits and the place of the point;
* `FloatStyle`: what a format of numbers decides beyond the digits;
* `Double.text`: the text of a number in a style.
-/

namespace Stencil

namespace Double

/-- Whether the ratio `num / den` is read as the number `significand · 2 ^ exponent`.
    The numbers around it are a unit of `2 ^ exponent` apart, or half as far below a
    power of two; the ends of the interval belong to it if the significand is even. -/
def readsAs (significand : Nat) (exponent : Int) (num den : Nat) : Bool :=
  -- All numbers are counted in quarters of a unit, so that the middle between
  -- two neighbours is a whole number.
  let up := twoPow exponent.toNat
  let down := twoPow (-exponent).toNat
  let v := 4 * num * down
  let unit := den * up
  let below := if significand = twoPow 52 ∧ leastExponent < exponent then 1 else 2
  let low := (4 * significand - below) * unit
  let high := (4 * significand + 2) * unit
  if significand % 2 = 0 then low ≤ v && v ≤ high else low < v && v < high

/-- The place of the decimal point of `num / den`: the least `k` with
    `num / den < 10 ^ k`. -/
def pointPlace (num den : Nat) : Int :=
  let guess : Int := countDigits num - countDigits den
  let less (k : Int) : Bool := num * tenPow (-k).toNat < den * tenPow k.toNat
  if less guess then guess else guess + 1

/-- The nearer one of the two neighbours of the number on the grid of `n` digits that
    is read back as the number, if there is one. The point stands at `place`. -/
def onGrid? (significand : Nat) (exponent : Int) (place : Int) (n : Nat) : Option Nat :=
  let shift : Int := n - place
  let num := significand * twoPow exponent.toNat * tenPow shift.toNat
  let den := twoPow (-exponent).toNat * tenPow (-shift).toNat
  let low := num / den
  let rest := num % den
  let reads (d : Nat) := readsAs significand exponent (d * tenPow (-shift).toNat) (tenPow shift.toNat)
  -- The neighbours are `low` and the point after it.
  let nearest := roundQuotient low rest den
  let other := if nearest = low then low + 1 else low
  if reads nearest then some nearest
  else if reads other then some other
  else none

/-- The first grid with a hit, starting with the one of `n` digits: its number of digits
    and the hit. -/
def firstHit (significand : Nat) (exponent : Int) (place : Int) : (fuel n : Nat) → Nat × Nat
  | 0, n => (n, (onGrid? significand exponent place n).getD 0)
  | fuel + 1, n =>
    match onGrid? significand exponent place n with
    | some d => (n, d)
    | none => firstHit significand exponent place fuel (n + 1)

/-- The digits `d₁ d₂ …` and the place `k` of the point such that `0.d₁d₂… · 10 ^ k` is
    the shortest decimal that is read back as `significand · 2 ^ exponent`. A hit that has
    a digit more than its grid is the next power of ten. -/
def shortest (significand : Nat) (exponent : Int) : List Char × Int :=
  if significand = 0 then (['0'], 1)
  else
    let place := pointPlace (significand * twoPow exponent.toNat) (twoPow (-exponent).toNat)
    let (n, d) := firstHit significand exponent place 16 1
    let digits := Nat.toDigits 10 d
    (withoutZeros digits, if n < digits.length then place + 1 else place)
where
  /-- A numeral without the zeros at its end. -/
  withoutZeros (digits : List Char) : List Char :=
    (digits.reverse.dropWhile (· == '0')).reverse

end Double

/-! ## Styles -/

/-- What a format of numbers decides beyond the digits. -/
structure FloatStyle where
  /-- The text of the result that is no number. -/
  nan : String
  /-- The text of the number beyond all finite ones. -/
  infinity : String
  /-- Whether a whole number before an exponent takes a point and a zero. -/
  pointBeforeExponent : Bool

namespace Double

/-- A numeral without exponent; a whole number ends in `.0`. -/
def positional (digits : List Char) (place : Int) : List Char :=
  let n : Int := digits.length
  if place ≤ 0 then '0' :: '.' :: List.replicate (-place).toNat '0' ++ digits
  else if n ≤ place then digits ++ List.replicate (place - n).toNat '0' ++ ['.', '0']
  else digits.take place.toNat ++ '.' :: digits.drop place.toNat

/-- A numeral with one digit before the point and an exponent of at least two digits. -/
def withExponent (style : FloatStyle) (digits : List Char) (place : Int) : List Char :=
  let mantissa :=
    match digits with
    | d :: r@(_ :: _) => d :: '.' :: r
    | ds => if style.pointBeforeExponent then ds ++ ['.', '0'] else ds
  let e := place - 1
  let size := Nat.toDigits 10 e.natAbs
  mantissa ++ 'e' :: (if e < 0 then '-' else '+') ::
    (if size.length < 2 then '0' :: size else size)

/-- The text of a number: positional from `0.0001` up to below `10 ^ 16`, with an
    exponent beyond. -/
def text (style : FloatStyle) : Double → String
  | .nan => style.nan
  | .infinite negative => (if negative then "-" else "") ++ style.infinity
  | .finite negative m e =>
    let (digits, place) := shortest m e
    let body :=
      if -4 < place ∧ place ≤ 16 then positional digits place
      else withExponent style digits place
    String.ofList (if negative then '-' :: body else body)

end Double

end Stencil
