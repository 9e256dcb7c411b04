import Stencil.Number.Double
import Stencil.Text.Blank
import Stencil.Text.Digit

/-!
# Numerals

Reading numbers from texts and writing integers. The readers take the decimal
digits of every script and blanks around the number.

* `digits?`: a run of digits as a number;
* `integer?`: an integer with an optional sign;
* `integerIn?`: an integer in another base;
* `double?`: a decimal number with an optional fraction and exponent;
* `intText?`: the decimal text of an integer, which only integers of at most
  `maxDigits` digits have.
-/

namespace Stencil.Numeral

open Stencil.Text

/-- The greatest number of digits in the decimal text of an integer. -/
def maxDigits : Nat := 4300

/-- The number that a list of digits stands for, read after the number `n`. -/
def readDigits (n : Nat) : List Char → Option Nat
  | [] => some n
  | c :: r => (digitValue? c).bind fun d => readDigits (10 * n + d) r

/-- The number that a non-empty list of digits stands for. -/
def digits? (cs : List Char) : Option Nat := if cs.isEmpty then none else readDigits 0 cs

/-- A number in base `base`, at most sixteen, in ASCII digits. -/
def inBase? (base : Nat) (cs : List Char) : Option Nat :=
  if cs.isEmpty then none else cs.foldlM step 0
where
  /-- One more digit behind the number `n`. -/
  step (n : Nat) (c : Char) : Option Nat :=
    let d := if c.isDigit then c.toNat - 48 else c.toLower.toNat - 87
    if (c.isDigit || ('a' ≤ c.toLower && c.toLower ≤ 'f')) && d < base then some (base * n + d)
    else none

/-- A sign in front of a text: whether it is a minus, and the text behind it. -/
def splitSign : List Char → Bool × List Char
  | '-' :: r => (true, r)
  | '+' :: r => (false, r)
  | cs => (false, cs)

/-- An integer with an optional sign and no blanks. -/
def integer? (cs : List Char) : Option Int :=
  let (negative, cs) := splitSign cs
  (digits? cs).map fun n => if negative then -(n : Int) else n

/-- Whether a character may stand around a number: all that are blank may, except for the four ASCII
    separators. -/
def isMargin (c : Char) : Bool := isBlank c && !(28 ≤ c.toNat && c.toNat ≤ 31)

/-- A text without the blanks that may stand around a number. -/
def trimMargins (cs : List Char) : List Char :=
  ((cs.dropWhile isMargin).reverse.dropWhile isMargin).reverse

/-- The digits in front of a text, and the rest. -/
def spanDigits (cs : List Char) : List Char × List Char := cs.span isDigit

/-- An integer with an optional sign and blanks around it, in base `base`, at most sixteen. A zero
    and the letter of the base may stand in front of the digits. -/
def integerIn? (base : Nat) (letter : Char) (cs : List Char) : Option Int :=
  let (negative, ds) := splitSign (trimMargins (cs.map asciiDigit))
  let ds := match ds with
    | '0' :: c :: r => if c.toLower = letter then r else ds
    | _ => ds
  (inBase? base ds).map fun n => if negative then -(n : Int) else n
where
  /-- A decimal digit of any script as an ASCII digit; other characters stay. -/
  asciiDigit (c : Char) : Char :=
    match digitValue? c with
    | some d => Nat.digitChar d
    | none => c

/-- The exponent at the end of a numeral: nothing, or `e` and an integer. -/
def exponent? : List Char → Option Int
  | [] => some 0
  | c :: r => if c = 'e' ∨ c = 'E' then integer? r else none

/-- An unsigned decimal number, with at least one digit beside the point. -/
def unsigned? (negative : Bool) (cs : List Char) : Option Double :=
  let (whole, r) := spanDigits cs
  let (fraction, r) := match r with
    | '.' :: r => spanDigits r
    | r => ([], r)
  (digits? (whole ++ fraction)).bind fun n => (exponent? r).map fun e =>
    Double.ofDecimal negative n (e - fraction.length)

/-- A number in double precision: a decimal number, `nan`, `inf` or `infinity`, in any
    case, with an optional sign and no blanks. -/
def double? (cs : List Char) : Option Double :=
  let (negative, cs) := splitSign cs
  -- A sign in front of `nan` is allowed and means nothing.
  let low := String.ofList (cs.map Char.toLower)
  if low = "nan" then some .nan
  else if low = "inf" ∨ low = "infinity" then some (.infinite negative)
  else unsigned? negative cs

/-- The decimal digits of a number. -/
def natText (n : Nat) : List Char := Nat.toDigits 10 n

/-- The decimal text of an integer. -/
def intText (i : Int) : String :=
  String.ofList (if i < 0 then '-' :: natText i.natAbs else natText i.natAbs)

/-- The decimal text of an integer, unless it is too long. -/
def intText? (i : Int) : Option String :=
  if (natText i.natAbs).length ≤ maxDigits then some (intText i) else none

end Stencil.Numeral
